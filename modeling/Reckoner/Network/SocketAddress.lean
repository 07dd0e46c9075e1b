import Reckoner.Network.IPv6

/-!
# Socket addresses

An address and, after a colon, the number of a service there. An address of version 6 is in
brackets, perhaps with the number of its scope. Both numbers may have leading zeros and are written
without them.
-/
namespace Reckoner.Network

open Text

inductive SocketAddress where
  | v4 (address : IPv4) (portNumber : UInt16)
  | v6 (address : IPv6) (scope : UInt32) (portNumber : UInt16)
  deriving Repr, DecidableEq

namespace SocketAddress

def portNumber : SocketAddress → UInt16
  | v4 _ portNumber => portNumber
  | v6 _ _ portNumber => portNumber

def readPortNumber? : Reader UInt16 := fun cs => do
  let (n, rest) ← number? UInt16.size (← skip? ':' cs)
  return (.ofNat n, rest)

/-- The scope at the head of a text, zero if none is written. -/
def readScope (cs : List Char) : UInt32 × List Char :=
  match (skip? '%' cs).bind (number? UInt32.size) with
  | some (n, rest) => (.ofNat n, rest)
  | none => (0, cs)

def readV4? : Reader SocketAddress := fun cs => do
  let (address, rest) ← IPv4.read? cs
  let (portNumber, rest) ← readPortNumber? rest
  return (v4 address portNumber, rest)

def readV6? : Reader SocketAddress := fun cs => do
  let (address, rest) ← IPv6.read? (← skip? '[' cs)
  let (scope, rest) := readScope rest
  let (portNumber, rest) ← readPortNumber? (← skip? ']' rest)
  return (v6 address scope portNumber, rest)

/-- The address that a text writes, with nothing before or after it. -/
def parse? (text : String) : Option SocketAddress :=
  match (readV4? text.toList).or (readV6? text.toList) with
  | some (address, []) => some address
  | _ => none

def render : SocketAddress → String
  | v4 address portNumber => address.render ++ s!":{portNumber.toNat}"
  | v6 address scope portNumber =>
    let mark := if scope = 0 then "" else s!"%{scope.toNat}"
    "[" ++ address.render ++ mark ++ s!"]:{portNumber.toNat}"

end SocketAddress
end Reckoner.Network
