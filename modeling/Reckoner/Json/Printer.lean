import Reckoner.Decimal.Layout
import Reckoner.Json.Basic

/-!
# Compact JSON text

No blanks; in strings the quote, the backslash and the control characters are escaped. Numbers that
are not whole have the shortest digits that read back; what is not finite is written as null.
-/
namespace Reckoner.Json

/-- Numbers are positional from 0.00001 up to but not including 10^16, always with a fraction;
beyond that their exponent carries its sign. -/
def layout : Decimal.Layout where
  positional := fun leading => -5 ≤ leading && leading < 16
  pointZero := true
  plusSign := true
  tie := .toEven

/-- Two lower-case hexadecimal digits. -/
def hexPair (n : Nat) : List Char :=
  [Nat.digitChar (n / 16), Nat.digitChar (n % 16)]

/-- A character as it stands inside a string. -/
def charChars (c : Char) : List Char :=
  if c = '"' then ['\\', '"']
  else if c = '\\' then ['\\', '\\']
  else if c = '\x08' then ['\\', 'b']
  else if c = '\x0c' then ['\\', 'f']
  else if c = '\n' then ['\\', 'n']
  else if c = '\r' then ['\\', 'r']
  else if c = '\t' then ['\\', 't']
  else if c.toNat < 0x20 then ['\\', 'u', '0', '0'] ++ hexPair c.toNat
  else [c]

def stringChars (text : String) : List Char :=
  '"' :: text.toList.flatMap charChars ++ ['"']

def integerChars (n : Int) : List Char :=
  (if n < 0 then ['-'] else []) ++ Decimal.digitChars n.natAbs

def realChars (x : Float) : List Char :=
  if x.isFinite then layout.chars x else ['n', 'u', 'l', 'l']

mutual

def chars : Json → List Char
  | null => ['n', 'u', 'l', 'l']
  | bool true => ['t', 'r', 'u', 'e']
  | bool false => ['f', 'a', 'l', 's', 'e']
  | integer n => integerChars n
  | real x => realChars x
  | string text => stringChars text
  | array items => '[' :: itemsChars items ++ [']']
  | object fields => '\x7b' :: fieldsChars fields ++ ['\x7d']

def itemsChars : List Json → List Char
  | [] => []
  | [last] => last.chars
  | first :: rest => first.chars ++ ',' :: itemsChars rest

def fieldsChars : List (String × Json) → List Char
  | [] => []
  | [(key, value)] => stringChars key ++ ':' :: value.chars
  | (key, value) :: rest => stringChars key ++ ':' :: value.chars ++ ',' :: fieldsChars rest

end

def render (value : Json) : String := .ofList value.chars

end Reckoner.Json
