import Reckoner.Decimal.Basic

/-!
# The shortest decimal that reads back

Of all decimals whose nearest double-precision number is the given one, the shortest has the fewest
digits and, among those, is the closest to the exact value. Grids of one to seventeen digits are
tried in turn; on each only the two neighbours of the exact value can be closest.
-/
namespace Reckoner.Decimal

/-- Which of two equally close decimals is taken. -/
inductive Tie where
  | up
  | toEven
  deriving DecidableEq

/-- The least exponent whose power of ten exceeds a positive rational. -/
def scale (r : Rat) : Int :=
  let estimate := Binary64.floorLog2 r * 30103 / 100000
  if r < 10 ^ estimate then estimate
  else if r < 10 ^ (estimate + 1) then estimate + 1
  else estimate + 2

/-- The exact value of a finite number, whose denominator is a power of two. -/
def exact (x : Float) : Decimal :=
  let value := Binary64.magnitude x
  let places := value.den.log2
  ⟨value.num.toNat * Nat.pow 5 places, -(places : Int)⟩

/-- The closer of two neighbours on a grid. -/
def closer (tie : Tie) (value : Rat) (lower upper : Decimal) : Decimal :=
  let middle := (lower.value + upper.value) / 2
  if value < middle then lower
  else if middle < value then upper
  else if tie = .toEven ∧ lower.digits % 2 = 0 then lower
  else upper

/-- Whether the nearest number of a decimal is `x` without its sign. -/
def readsBack (d : Decimal) (x : Float) : Bool :=
  Binary64.ordinal d.toFloat = Binary64.ordinal x

/-- The decimal with this last place that reads back as `x`, closest to `value` if both neighbours
do. -/
def onGrid? (tie : Tie) (x : Float) (value : Rat) (place : Int) : Option Decimal :=
  let below := (value * 10 ^ (-place)).floor.toNat
  let lower : Decimal := ⟨below, place⟩
  let upper : Decimal := ⟨below + 1, place⟩
  match lower.readsBack x, upper.readsBack x with
  | true, true => some (closer tie value lower upper)
  | true, false => some lower
  | false, true => some upper
  | false, false => none

/-- The shortest decimal that reads back as a finite number, which is not zero, without its sign. -/
def shortest (tie : Tie) (x : Float) : Decimal :=
  let value := Binary64.magnitude x
  let top := scale value
  let found := (List.range 17).findSome? fun n : Nat => onGrid? tie x value (top - 1 - n)
  (found.getD (exact x)).withoutTrailingZeros

end Reckoner.Decimal
