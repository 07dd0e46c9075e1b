/-!
# How a program ends

A program that ends has written lines and gives a code: zero for success, one for a refusal, two for
arguments that it does not take.
-/
namespace Reckoner

structure Exit where
  code : Nat
  lines : List String
  deriving Repr, DecidableEq

namespace Exit

def success (lines : List String) : Exit := ⟨0, lines⟩

def refused (lines : List String) : Exit := ⟨1, lines⟩

/-- Nothing is written but a complaint that is not part of the output. -/
def misused : Exit := ⟨2, []⟩

/-- What was written, with an end at each line. -/
def output (result : Exit) : String := .join (result.lines.map (· ++ "\n"))

end Exit
end Reckoner
