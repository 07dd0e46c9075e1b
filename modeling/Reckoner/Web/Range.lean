import Reckoner.Text.Count
import Reckoner.Text.Split

/-!
# Parts of a file

A request may ask for a range of the bytes of a file. The header names its ranges; they are checked
against the size of the file, and exactly one range can be served.
-/
namespace Reckoner.Web

/-- A range as it is asked for: from a byte, perhaps to a byte, or the last bytes. -/
inductive ByteRange where
  | starting (first : Nat) (last : Option Nat)
  | suffix (count : Nat)
  deriving Repr, DecidableEq

namespace ByteRange

/-- Digits without a superfluous zero, below 2^64. -/
def number? (cs : List Char) : Option Nat :=
  if cs.head? = some '0' ∧ 1 < cs.length then none
  else (Text.count? cs).filter (· < UInt64.size)

def parse? (cs : List Char) : Option ByteRange :=
  match cs.takeWhile (· ≠ '-'), cs.dropWhile (· ≠ '-') with
  | [], '-' :: count => do
    let n ← number? count
    if n = 0 then none else some (suffix n)
  | first, ['-'] => do return starting (← number? first) none
  | first, '-' :: last => do return starting (← number? first) (some (← number? last))
  | _, _ => none

/-- The first and the last byte of a range in a file of this size. In an empty file these are zero
and zero. -/
def within? (size : Nat) : ByteRange → Option (Nat × Nat)
  | suffix count => if count ≤ size then some (size - count, size - 1) else none
  | starting first last =>
    let last := min (last.getD (size - 1)) (size - 1)
    if first ≤ last then some (first, last) else none

/-- The text after one blank, if it starts with one. -/
def skipBlank : List Char → List Char
  | ' ' :: rest => rest
  | '\t' :: rest => rest
  | cs => cs

/-- The texts of the ranges, with a comma and perhaps one blank between them. -/
def parts (cs : List Char) : List (List Char) :=
  match Text.split ',' cs with
  | [] => []
  | first :: others => first :: others.map skipBlank

def unit : List Char := "bytes=".toList

/-- Whether any two of these ranges share a byte. -/
def overlapping : List (Nat × Nat) → Bool
  | [] => false
  | (first, last) :: rest =>
    rest.any (fun other => first ≤ other.2 && other.1 ≤ last) || overlapping rest

/-- The ranges that a header asks for in a file of this size. -/
def ranges? (size : Nat) (header : String) : Option (List (Nat × Nat)) := do
  let cs := header.toList
  if unit.isPrefixOf cs then
    let ranges ← (parts (cs.drop unit.length)).mapM fun part => do (← parse? part).within? size
    if overlapping ranges then none else some ranges
  else none

end ByteRange
end Reckoner.Web
