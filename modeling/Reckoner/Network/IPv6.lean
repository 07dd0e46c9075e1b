import Reckoner.Network.IPv4
import Reckoner.Text.Hex

/-!
# Internet addresses, version 6

Eight groups with colons between them. One gap stands for zeros, and the last two groups may be
written as an address of version 4. There is one way to write an address: the first of its longest
runs of zeros is left out if it is longer than one group, and an address that stands for one of
version 4 ends in it.
-/
namespace Reckoner.Network

open Text

structure IPv6 where
  groups : Vector UInt16 8
  deriving Repr, DecidableEq

namespace IPv6

/-- The greatest number of digits of a group. -/
def groupDigits : Nat := 4

def group? : Reader UInt16 := fun cs =>
  let isDigit (c : Char) : Bool := (hexDigit? c).isSome
  let digits := cs.takeWhile isDigit
  let n := digits.foldl (fun n c => 16 * n + (hexDigit? c).getD 0) 0
  if digits ≠ [] ∧ digits.length ≤ groupDigits then some (.ofNat n, cs.dropWhile isDigit) else none

/-- The two groups that an address of version 4 makes. -/
def pairOf (address : IPv4) : List UInt16 :=
  let group (high low : UInt8) : UInt16 := 256 * high.toUInt16 + low.toUInt16
  [group address.octets[0] address.octets[1], group address.octets[2] address.octets[3]]

/-- Groups at the head of a text. -/
structure Groups where
  values : List UInt16
  /-- whether the last two are written as an address of version 4 -/
  endsInPair : Bool
  rest : List Char

/-- As many groups as there are, up to a limit, with colons between them. -/
def readGroups (limit : Nat) (isFirst : Bool) (cs : List Char) : Groups :=
  match limit with
  | 0 => ⟨[], false, cs⟩
  | limit + 1 =>
    match if isFirst then some cs else skip? ':' cs with
    | none => ⟨[], false, cs⟩
    | some body =>
      match if 0 < limit then IPv4.read? body else none with
      | some (address, rest) => ⟨pairOf address, true, rest⟩
      | none =>
        match group? body with
        | none => ⟨[], false, cs⟩
        | some (value, rest) =>
          let others := readGroups limit false rest
          ⟨value :: others.values, others.endsInPair, others.rest⟩

/-- The address with these groups at its two ends and zeros between them. -/
def ofEnds (front back : List UInt16) : IPv6 :=
  let all := front ++ List.replicate (8 - front.length - back.length) 0 ++ back
  ⟨.ofFn fun i => all[i.val]?.getD 0⟩

/-- An address in eight groups, or in fewer with a gap, which stands for one group at least. -/
def read? : Reader IPv6 := fun cs =>
  let front := readGroups 8 true cs
  if front.values.length = 8 then some (ofEnds front.values [], front.rest)
  else if front.endsInPair then none
  else do
    let rest ← skip? ':' (← skip? ':' front.rest)
    let back := readGroups (7 - front.values.length) true rest
    return (ofEnds front.values back.values, back.rest)

def renderGroups (values : List UInt16) : String :=
  ":".intercalate (values.map fun value => .ofList (Nat.toDigits 16 value.toNat))

/-- Where the first of the longest runs of zeros starts, and its length. -/
def longestZeros (values : List UInt16) : Nat × Nat :=
  (List.range values.length).foldl (fun best start =>
    let length := ((values.drop start).takeWhile (· = 0)).length
    if best.2 < length then (start, length) else best) (0, 0)

/-- The address of version 4 that an address stands for. -/
def mapped? (address : IPv6) : Option IPv4 :=
  match address.groups.toList with
  | [0, 0, 0, 0, 0, 0xFFFF, high, low] =>
    some ⟨#v[(high / 256).toUInt8, high.toUInt8, (low / 256).toUInt8, low.toUInt8]⟩
  | _ => none

def render (address : IPv6) : String :=
  match address.mapped? with
  | some inner => "::ffff:" ++ inner.render
  | none =>
    let values := address.groups.toList
    let (start, length) := longestZeros values
    if 1 < length then
      renderGroups (values.take start) ++ "::" ++ renderGroups (values.drop (start + length))
    else renderGroups values

end IPv6
end Reckoner.Network
