/-!
# Double-precision numbers as exact rationals

Without its sign, a finite number is a natural number: its bits, read as an integer, count the
finite numbers upwards from zero. Reading a rational and rounding a number to decimals both pass
through the exact rational value, so each rounds once.
-/
namespace Reckoner.Binary64

/-- The weight of the sign among the bits. -/
def signBit : Nat := 0x8000000000000000

/-- How many numbers share one exponent. -/
def binadeSize : Nat := 0x10000000000000

/-- The bits without the sign; finite numbers of one sign are ordered as their ordinals. -/
def ordinal (x : Float) : Nat := x.toBits.toNat % signBit

/-- The sign bit, which tells the two zeros apart. -/
def isNegative (x : Float) : Bool := signBit ≤ x.toBits.toNat

/-- The ordinal of infinity, one past the last finite number. -/
def infinityOrdinal : Nat := 0x7FF0000000000000

/-- The exact value of the finite number that has this ordinal. -/
def magnitudeAt (n : Nat) : Rat :=
  let field : Nat := n / binadeSize
  let fraction : Nat := n % binadeSize
  if field = 0 then (fraction : Rat) * 2 ^ (-1074 : Int)
  else ((binadeSize + fraction : Nat) : Rat) * 2 ^ ((field : Int) - 1075)

/-- The exact absolute value of a finite number. -/
def magnitude (x : Float) : Rat := magnitudeAt (ordinal x)

/-- The exact value of a finite number. -/
def value (x : Float) : Rat := if isNegative x then -magnitude x else magnitude x

/-- The nearest integer; halfway between two, the even one. -/
def roundHalfEven (r : Rat) : Int :=
  let below := r.floor
  let excess := r - below
  if excess < 1 / 2 then below
  else if 1 / 2 < excess then below + 1
  else if below % 2 = 0 then below
  else below + 1

/-- The exponent of the power of two at or below a positive rational. -/
def floorLog2 (r : Rat) : Int :=
  let guess := (r.num.toNat.log2 : Int) - r.den.log2
  if (2 : Rat) ^ guess ≤ r then guess else guess - 1

/-- The exponent of the last place of the numbers around a positive rational. -/
def unitExponent (r : Rat) : Int := max (floorLog2 r - 52) (-1074)

/-- The ordinal of the number nearest to a rational that is not negative. A significand that
rounds up to the next power of two carries into the exponent by itself. -/
def nearestOrdinal (r : Rat) : Nat :=
  if r ≤ 0 then 0
  else
    let unit := unitExponent r
    let significand := (roundHalfEven (r * 2 ^ (-unit))).toNat
    min infinityOrdinal ((unit + 1074).toNat * binadeSize + significand)

/-- The number with this sign and this ordinal. -/
def ofOrdinal (negative : Bool) (n : Nat) : Float :=
  .ofBits (.ofNat (if negative then signBit + n else n))

/-- The number nearest to a rational that is not negative, ties to the even significand. -/
def nearest (r : Rat) : Float := ofOrdinal false (nearestOrdinal r)

def infinity : Float := ofOrdinal false infinityOrdinal

end Reckoner.Binary64
