import Reckoner.Text.Reader

/-!
# Internet addresses, version 4

Four octets with points between them, none with leading zeros.
-/
namespace Reckoner.Network

open Text

structure IPv4 where
  octets : Vector UInt8 4
  deriving Repr, DecidableEq

namespace IPv4

def octet? : Reader UInt8 := fun cs =>
  match number? UInt8.size cs with
  | none => none
  | some (n, rest) =>
    let digits := cs.takeWhile Char.isDigit
    if digits.head? = some '0' ∧ digits ≠ ['0'] then none else some (.ofNat n, rest)

def read? : Reader IPv4 := fun cs => do
  let (a, cs) ← octet? cs
  let (b, cs) ← octet? (← skip? '.' cs)
  let (c, cs) ← octet? (← skip? '.' cs)
  let (d, cs) ← octet? (← skip? '.' cs)
  return (⟨#v[a, b, c, d]⟩, cs)

def render (address : IPv4) : String :=
  ".".intercalate (address.octets.toList.map fun octet => toString octet.toNat)

end IPv4
end Reckoner.Network
