import Reckoner.Json.Number
import Reckoner.Text.Hex

/-!
# Reading JSON

Strict texts only: one value between blanks, no trailing commas, no control characters in strings,
no half of a surrogate pair. `value? n` reads a value in which at most `n` arrays and objects stand
inside each other. Readers take characters from the head of a text and give the rest.
-/
namespace Reckoner.Json

/-- How many arrays and objects may stand inside each other. -/
def depthLimit : Nat := 127

/-- What was read from the head of a text: at least one character of it is gone. -/
structure Read (α : Type) (cs : List Char) where
  value : α
  rest : List Char
  shorter : rest.length < cs.length

abbrev ValueReader := (cs : List Char) → Option (Read Json cs)

def isSpace (c : Char) : Bool := c = ' ' || c = '\t' || c = '\n' || c = '\r'

def skipSpace (cs : List Char) : List Char := cs.dropWhile isSpace

theorem length_skipSpace_le (cs : List Char) : (skipSpace cs).length ≤ cs.length :=
  (List.dropWhile_suffix _).length_le

/-- What was read of a text whose leading blanks were skipped. -/
def Read.afterSpace {α : Type} {cs : List Char} (read : Read α (skipSpace cs)) : Read α cs :=
  ⟨read.value, read.rest, Nat.lt_of_lt_of_le read.shorter (length_skipSpace_le cs)⟩

def hexQuad? (a b c d : Char) : Option Nat := do
  return (← Text.hexDigit? a) * 0x1000 + (← Text.hexDigit? b) * 0x100 +
    (← Text.hexDigit? c) * 0x10 + (← Text.hexDigit? d)

/-- The character of a one-letter escape. -/
def escaped? : Char → Option Char
  | '"' => some '"'
  | '\\' => some '\\'
  | '/' => some '/'
  | 'b' => some '\x08'
  | 'f' => some '\x0c'
  | 'n' => some '\n'
  | 'r' => some '\r'
  | 't' => some '\t'
  | _ => none

/-- The character of two halves of a surrogate pair. -/
def paired? (high low : Nat) : Option Char :=
  if 0xDC00 ≤ low ∧ low ≤ 0xDFFF then
    some (Char.ofNat (0x10000 + (high - 0xD800) * 0x400 + (low - 0xDC00)))
  else none

/-- The rest of a string after its opening quote, with what was read of it in reverse. -/
def stringFrom (done : List Char) : List Char → Option (List Char × List Char)
  | [] => none
  | '"' :: rest => some (done.reverse, rest)
  | '\\' :: 'u' :: a :: b :: c :: d :: rest =>
    match hexQuad? a b c d with
    | none => none
    | some unit =>
      if 0xD800 ≤ unit ∧ unit ≤ 0xDBFF then
        match rest with
        | '\\' :: 'u' :: a :: b :: c :: d :: rest =>
          match (hexQuad? a b c d).bind (paired? unit) with
          | none => none
          | some character => stringFrom (character :: done) rest
        | _ => none
      else if 0xDC00 ≤ unit ∧ unit ≤ 0xDFFF then none
      else stringFrom (Char.ofNat unit :: done) rest
  | '\\' :: letter :: rest =>
    match escaped? letter with
    | none => none
    | some character => stringFrom (character :: done) rest
  | c :: rest =>
    if c = '\\' ∨ c.toNat < 0x20 then none else stringFrom (c :: done) rest

theorem length_le_of_stringFrom {done cs text rest : List Char}
    (h : stringFrom done cs = some (text, rest)) : rest.length ≤ cs.length := by
  fun_induction stringFrom done cs <;> simp_all <;> omega

/-- A string at the head of a text, from its opening quote. -/
def string? (cs : List Char) : Option (Read String cs) :=
  match cs with
  | '"' :: rest =>
    match h : stringFrom [] rest with
    | none => none
    | some (text, after) => some ⟨.ofList text, after, by
        have := length_le_of_stringFrom h
        simp only [List.length_cons]
        omega⟩
  | _ => none

/-- The items after those already read, which are in reverse, and the closing bracket. -/
def itemsFrom (item? : ValueReader) {cs : List Char} (read : Read (List Json) cs) :
    Option (Read (List Json) cs) :=
  match h : skipSpace read.rest with
  | ']' :: rest => some ⟨read.value.reverse, rest, by
      have := read.shorter
      have := length_skipSpace_le read.rest
      simp only [h, List.length_cons] at this
      omega⟩
  | ',' :: following => do
    let next ← item? (skipSpace following)
    itemsFrom item? ⟨next.value :: read.value, next.rest, by
      have := read.shorter
      have := length_skipSpace_le read.rest
      have := next.afterSpace.shorter
      simp only [h, List.length_cons, Read.afterSpace] at *
      omega⟩
  | _ => none
termination_by read.rest.length
decreasing_by
  have := length_skipSpace_le read.rest
  have := next.afterSpace.shorter
  simp only [h, List.length_cons, Read.afterSpace] at *
  omega

/-- The items of an array after its opening bracket, with the closing one. -/
def items? (item? : ValueReader) (cs : List Char) : Option (Read (List Json) cs) :=
  match h : skipSpace cs with
  | ']' :: rest => some ⟨[], rest, by
      have := length_skipSpace_le cs
      simp only [h, List.length_cons] at this
      omega⟩
  | _ => do
    let first ← item? (skipSpace cs)
    itemsFrom item? ⟨[first.value], first.rest, first.afterSpace.shorter⟩

/-- A key, a colon and a value. -/
def field? (value? : ValueReader) (cs : List Char) : Option (Read (String × Json) cs) := do
  let key ← string? cs
  match h : skipSpace key.rest with
  | ':' :: following =>
    let value ← value? (skipSpace following)
    return ⟨(key.value, value.value), value.rest, by
      have := key.shorter
      have := length_skipSpace_le key.rest
      have := value.afterSpace.shorter
      simp only [h, List.length_cons, Read.afterSpace] at *
      omega⟩
  | _ => none

/-- The fields after those already read, which are in reverse, and the closing brace. -/
def fieldsFrom (value? : ValueReader) {cs : List Char} (read : Read (List (String × Json)) cs) :
    Option (Read (List (String × Json)) cs) :=
  match h : skipSpace read.rest with
  | '\x7d' :: rest => some ⟨read.value.reverse, rest, by
      have := read.shorter
      have := length_skipSpace_le read.rest
      simp only [h, List.length_cons] at this
      omega⟩
  | ',' :: following => do
    let next ← field? value? (skipSpace following)
    fieldsFrom value? ⟨next.value :: read.value, next.rest, by
      have := read.shorter
      have := length_skipSpace_le read.rest
      have := next.afterSpace.shorter
      simp only [h, List.length_cons, Read.afterSpace] at *
      omega⟩
  | _ => none
termination_by read.rest.length
decreasing_by
  have := length_skipSpace_le read.rest
  have := next.afterSpace.shorter
  simp only [h, List.length_cons, Read.afterSpace] at *
  omega

/-- The fields of an object after its opening brace, with the closing one. -/
def fields? (value? : ValueReader) (cs : List Char) : Option (Read (List (String × Json)) cs) :=
  match h : skipSpace cs with
  | '\x7d' :: rest => some ⟨[], rest, by
      have := length_skipSpace_le cs
      simp only [h, List.length_cons] at this
      omega⟩
  | _ => do
    let first ← field? value? (skipSpace cs)
    fieldsFrom value? ⟨[first.value], first.rest, first.afterSpace.shorter⟩

/-- What was read of a text that one more character precedes. -/
def Read.after {α β : Type} (convert : α → β) (c : Char) {cs : List Char} (read : Read α cs) :
    Read β (c :: cs) :=
  ⟨convert read.value, read.rest, by
    have := read.shorter
    simp only [List.length_cons]
    omega⟩

/-- A word at the head of a text. -/
def word? (word : List Char) (value : Json) (cs : List Char) : Option (Read Json cs) :=
  if h : word ≠ [] ∧ word.isPrefixOf cs then
    some ⟨value, cs.drop word.length, by
      have hlen := (List.isPrefixOf_iff_prefix.1 h.2).length_le
      have := List.length_pos_iff.2 h.1
      simp only [List.length_drop]
      omega⟩
  else none

/-- A value without parts. -/
def scalar? : ValueReader
  | 'n' :: rest => word? ['n', 'u', 'l', 'l'] .null ('n' :: rest)
  | 't' :: rest => word? ['t', 'r', 'u', 'e'] (.bool true) ('t' :: rest)
  | 'f' :: rest => word? ['f', 'a', 'l', 's', 'e'] (.bool false) ('f' :: rest)
  | '"' :: rest =>
    (string? ('"' :: rest)).map fun read => ⟨.string read.value, read.rest, read.shorter⟩
  | cs =>
    match h : number? cs with
    | none => none
    | some (value, rest) => some ⟨value, rest, length_lt_of_number? h⟩

/-- A value in which at most this many arrays and objects stand inside each other. -/
def value? : Nat → ValueReader
  | 0, '[' :: _ => none
  | 0, '\x7b' :: _ => none
  | depth + 1, '[' :: rest => (items? (value? depth) rest).map (Read.after .array '[')
  | depth + 1, '\x7b' :: rest => (fields? (value? depth) rest).map (Read.after ofFields '\x7b')
  | _, cs => scalar? cs

/-- The value that is the whole of a text. -/
def parse? (cs : List Char) : Option Json := do
  let read ← value? depthLimit (skipSpace cs)
  if skipSpace read.rest = [] then some read.value else none

end Reckoner.Json
