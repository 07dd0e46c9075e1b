import Reckoner.Decimal.Literal
import Reckoner.Refusal
import Reckoner.Token.Basic

/-!
# From characters to tokens

At every place that is not blank the longest lexeme is taken. The first place where none starts
refuses the text, with its byte position. Every lexeme is taken from the head of what is left, so
reading ends.
-/
namespace Reckoner

def isNameStart (c : Char) : Bool := c.isAlpha || c = '_'

def isNamePart (c : Char) : Bool := c.isAlphanum || c = '_'

/-- A lexeme at the head of a text: its characters and what follows them. -/
structure Lexeme.Head where
  lexeme : Lexeme
  chars : List Char
  rest : List Char

/-- The longest lexeme at the head of a text. -/
def Lexeme.head? (cs : List Char) : Option Lexeme.Head :=
  match cs with
  | '+' :: rest => some ⟨.plus, ['+'], rest⟩
  | '-' :: rest => some ⟨.minus, ['-'], rest⟩
  | '/' :: rest => some ⟨.slash, ['/'], rest⟩
  | ',' :: rest => some ⟨.comma, [','], rest⟩
  | '(' :: rest => some ⟨.leftParen, ['('], rest⟩
  | ')' :: rest => some ⟨.rightParen, [')'], rest⟩
  | '*' :: '*' :: rest => some ⟨.doubleStar, ['*', '*'], rest⟩
  | '*' :: rest => some ⟨.star, ['*'], rest⟩
  | [] => none
  | c :: rest =>
    if isNameStart c then
      let chars := c :: rest.takeWhile isNamePart
      some ⟨.name (.ofList chars), chars, rest.dropWhile isNamePart⟩
    else
      (Literal.read? cs).map fun (literal, rest) =>
        ⟨.number literal.toFloat, literal.chars, rest⟩

theorem Lexeme.head?_append {cs : List Char} {head : Head} (h : head? cs = some head) :
    head.chars ++ head.rest = cs := by
  unfold head? at h
  split at h
  case h_10 =>
    split at h
    · cases h; simp [List.takeWhile_append_dropWhile]
    · obtain ⟨⟨literal, rest⟩, hread, rfl⟩ := Option.map_eq_some_iff.1 h
      exact Literal.read?_append hread
  all_goals cases h <;> rfl

theorem Lexeme.chars_ne_nil_of_head? {cs : List Char} {head : Head} (h : head? cs = some head) :
    head.chars ≠ [] := by
  unfold head? at h
  split at h
  case h_10 =>
    split at h
    · cases h; simp
    · obtain ⟨⟨literal, rest⟩, hread, rfl⟩ := Option.map_eq_some_iff.1 h
      exact Literal.chars_ne_nil_of_read? hread
  all_goals cases h <;> simp

theorem Lexeme.length_rest_lt {cs : List Char} {head : Head} (h : head? cs = some head) :
    head.rest.length < cs.length := by
  have hpos := List.length_pos_iff.2 (chars_ne_nil_of_head? h)
  have hlen := congrArg List.length (head?_append h)
  simp only [List.length_append] at hlen
  omega

/-- The tokens of a text whose first character is at this byte. -/
def Token.scanFrom (position : Nat) (cs : List Char) : Except Refusal (List Token) :=
  match cs with
  | [] => .ok []
  | c :: rest =>
    if Text.isBlank c then scanFrom (position + c.utf8Size) rest
    else
      match h : Lexeme.head? (c :: rest) with
      | none => .error (.malformed position)
      | some head => do
        have := Lexeme.length_rest_lt h
        let later ← scanFrom (position + Text.byteLength head.chars) head.rest
        return ⟨head.lexeme, position⟩ :: later
termination_by cs.length
decreasing_by
  · exact Nat.lt_succ_self rest.length
  · assumption

/-- The tokens of a text. -/
def Token.scan (cs : List Char) : Except Refusal (List Token) := scanFrom 0 cs

/-- A caret is another spelling of the power operator, replaced before the text is read. -/
def expandCarets (cs : List Char) : List Char :=
  cs.flatMap fun c => if c = '^' then ['*', '*'] else [c]

end Reckoner
