/-!
# Readers of text

A reader takes what it reads from the head of a text and gives the rest, or reads nothing.
-/
namespace Reckoner.Text

abbrev Reader (α : Type) := List Char → Option (α × List Char)

/-- The text after one given character. -/
def skip? (c : Char) (cs : List Char) : Option (List Char) :=
  match cs with
  | [] => none
  | d :: rest => if d = c then some rest else none

/-- The text after a given text. -/
def skipAll? : List Char → List Char → Option (List Char)
  | [], cs => some cs
  | c :: expected, cs => (skip? c cs).bind (skipAll? expected)

/-- A number below a bound, in all the decimal digits at the head of the text. -/
def number? (bound : Nat) : Reader Nat := fun cs =>
  let digits := cs.takeWhile Char.isDigit
  let n := Nat.ofDigitChars 10 digits 0
  if digits ≠ [] ∧ n < bound then some (n, cs.dropWhile Char.isDigit) else none

/-- A number in the first `count` characters, all of them decimal digits. -/
def digits? (count : Nat) : Reader Nat := fun cs =>
  let digits := cs.take count
  if digits.length = count ∧ digits.all Char.isDigit then
    some (Nat.ofDigitChars 10 digits 0, cs.drop count)
  else none

/-- The place, in a list of names, of one that stands at the head of the text. -/
def oneOf? : List String → Reader Nat
  | [], _ => none
  | name :: names, cs =>
    match skipAll? name.toList cs with
    | some rest => some (0, rest)
    | none => (oneOf? names cs).map fun (place, rest) => (place + 1, rest)

end Reckoner.Text
