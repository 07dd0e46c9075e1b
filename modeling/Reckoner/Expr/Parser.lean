import Reckoner.Expr.Basic
import Reckoner.Refusal
import Reckoner.Token.Basic

/-!
# From tokens to a tree

The only grammar that is recognised:

    expression := term (('+' | '-') term)*
    term       := power (('*' | '/') power)*
    power      := signed ('**' power)?
    signed     := ('+' | '-') signed | atom
    atom       := NUMBER | NAME | NAME '(' arguments ')' | '(' expression ')'
    arguments  := (expression (',' expression)* ','?)?

An expression, an exponent and the operand of a sign open a level. `Level.withRoom n` holds these
three productions where `n` more levels may be opened, each built from the productions one level
further in; with no room left they refuse without looking at a token. The height of the tree has the
same limit and is measured while the tree is built, because chains of equal priority grow in height
without opening a level.
-/
namespace Reckoner

/-- The limit on open levels and on the height of a tree. -/
def nestingLimit : Nat := 200

/-- A tree together with its height. -/
structure Measured where
  expr : Expr
  height : Nat

/-- What was read from the head of some tokens: at least one of them is gone. -/
structure Parsed (α : Type) (tokens : List Token) where
  value : α
  rest : List Token
  shorter : rest.length < tokens.length

/-- The same reading of tokens that one more token precedes. -/
def Parsed.after {α : Type} (token : Token) {tokens : List Token} (read : Parsed α tokens) :
    Parsed α (token :: tokens) :=
  ⟨read.value, read.rest, by
    have := read.shorter
    simp only [List.length_cons]
    omega⟩

/-- Reads a tree from the head of the tokens. -/
abbrev Production := (tokens : List Token) → Except Refusal (Parsed Measured tokens)

/-- The byte at which a refusal points: the first token left, or the end of the text. -/
def positionOf (finish : Nat) : List Token → Nat
  | [] => finish
  | token :: _ => token.position

/-- A tree of this height, refused above the limit. -/
def Measured.limited (e : Expr) (height : Nat) : Except Refusal Measured :=
  if nestingLimit < height then .error (.tooNested nestingLimit) else .ok ⟨e, height⟩

def Measured.join (operator : Operator) (left right : Measured) : Except Refusal Measured :=
  limited (.binary operator left.expr right.expr) (max left.height right.height + 1)

def Operator.additive? : Lexeme → Option Operator
  | .plus => some .add
  | .minus => some .sub
  | _ => none

def Operator.multiplicative? : Lexeme → Option Operator
  | .star => some .mul
  | .slash => some .div
  | _ => none

namespace Production

/-- Joins operands to what was read, from the left, as long as an operator follows. -/
def chainFrom (operator? : Lexeme → Option Operator) (operand : Production) {tokens : List Token}
    (read : Parsed Measured tokens) : Except Refusal (Parsed Measured tokens) :=
  match h : read.rest with
  | [] => .ok read
  | token :: following =>
    match operator? token.lexeme with
    | none => .ok read
    | some operator => do
      let right ← operand following
      let joined ← read.value.join operator right.value
      chainFrom operator? operand ⟨joined, right.rest, by
        have := read.shorter
        have := right.shorter
        simp only [h, List.length_cons] at *
        omega⟩
termination_by read.rest.length
decreasing_by
  have := right.shorter
  simp only [h, List.length_cons]
  omega

/-- Operands joined by operators of one priority, which group to the left. -/
def chain (operator? : Lexeme → Option Operator) (operand : Production) : Production :=
  fun tokens => do chainFrom operator? operand (← operand tokens)

/-- What is left of tokens that follow another one is shorter than all of them. -/
theorem length_lt_of_eq_cons {α : Type} {l following rest : List α} {a : α} (h : l = a :: following)
    (hrest : rest.length ≤ following.length) : rest.length < l.length := by
  rw [h]
  exact Nat.lt_succ_of_le hrest

/-- The arguments after those already read, which are in reverse, and the closing parenthesis. One
comma may stand before it. -/
def argumentsFrom (finish : Nat) (expression : Production) {tokens : List Token}
    (read : Parsed (List Measured) tokens) : Except Refusal (Parsed (List Measured) tokens) :=
  match h : read.rest with
  | ⟨.rightParen, _⟩ :: rest =>
    .ok ⟨read.value.reverse, rest,
      Nat.lt_trans (length_lt_of_eq_cons h (Nat.le_refl rest.length)) read.shorter⟩
  | ⟨.comma, _⟩ :: ⟨.rightParen, _⟩ :: rest =>
    .ok ⟨read.value.reverse, rest,
      Nat.lt_trans (length_lt_of_eq_cons h (Nat.le_succ rest.length)) read.shorter⟩
  | ⟨.comma, _⟩ :: following => do
    let next ← expression following
    argumentsFrom finish expression ⟨next.value :: read.value, next.rest,
      Nat.lt_trans (length_lt_of_eq_cons h (Nat.le_of_lt next.shorter)) read.shorter⟩
  | others => .error (.malformed (positionOf finish others))
termination_by read.rest.length
decreasing_by exact length_lt_of_eq_cons h (Nat.le_of_lt next.shorter)

/-- The arguments of a call, after its opening parenthesis, with the closing one. -/
def arguments (finish : Nat) (expression : Production) (tokens : List Token) :
    Except Refusal (Parsed (List Measured) tokens) :=
  match tokens with
  | ⟨.rightParen, _⟩ :: rest => .ok ⟨[], rest, by simp⟩
  | tokens => do
    let first ← expression tokens
    argumentsFrom finish expression ⟨[first.value], first.rest, first.shorter⟩

/-- The height that a call with these arguments has. -/
def callHeight (read : List Measured) : Nat :=
  (read.map Measured.height).foldr max 0 + 1

def atom (finish : Nat) (expression : Production) : Production
  | ⟨.number value, _⟩ :: rest => .ok ⟨⟨.number value, 1⟩, rest, by simp⟩
  | ⟨.name function, _⟩ :: ⟨.leftParen, _⟩ :: rest => do
    let read ← arguments finish expression rest
    let call ← Measured.limited (.call function (read.value.map Measured.expr)) (callHeight read.value)
    return ⟨call, read.rest, by
      have := read.shorter
      simp only [List.length_cons]
      omega⟩
  | ⟨.name text, _⟩ :: rest => .ok ⟨⟨.name text, 1⟩, rest, by simp⟩
  | ⟨.leftParen, _⟩ :: rest => do
    let inner ← expression rest
    match h : inner.rest with
    | ⟨.rightParen, _⟩ :: after => .ok ⟨inner.value, after, by
        have := inner.shorter
        simp only [h, List.length_cons] at *
        omega⟩
    | others => .error (.malformed (positionOf finish others))
  | others => .error (.malformed (positionOf finish others))

/-- The operand of a sign that was just read. -/
def afterSign (sign : Sign) (operand : Production) (rest : List Token) :
    Except Refusal (Parsed Measured rest) := do
  let read ← operand rest
  let signed ← Measured.limited (.signed sign read.value.expr) (read.value.height + 1)
  return ⟨signed, read.rest, read.shorter⟩

def signed (operand atom : Production) : Production
  | ⟨.plus, position⟩ :: rest => do
    return (← afterSign .plus operand rest).after ⟨.plus, position⟩
  | ⟨.minus, position⟩ :: rest => do
    return (← afterSign .minus operand rest).after ⟨.minus, position⟩
  | tokens => atom tokens

/-- An optional exponent, which groups to the right. -/
def power (exponent signed : Production) : Production := fun tokens => do
  let base ← signed tokens
  match h : base.rest with
  | ⟨.doubleStar, _⟩ :: following =>
    let right ← exponent following
    let joined ← base.value.join .pow right.value
    return ⟨joined, right.rest, by
      have := base.shorter
      have := right.shorter
      simp only [h, List.length_cons] at *
      omega⟩
  | _ => return base

end Production

/-- The productions that open a level. -/
structure Level where
  expression : Production
  exponent : Production
  operand : Production

namespace Level

/-- No level may be opened. -/
def closed : Level where
  expression := fun _ => .error (.tooNested nestingLimit)
  exponent := fun _ => .error (.tooNested nestingLimit)
  operand := fun _ => .error (.tooNested nestingLimit)

/-- The productions of one level, where those that it opens are given. -/
def above (finish : Nat) (inner : Level) : Level :=
  let atom := Production.atom finish inner.expression
  let signed := Production.signed inner.operand atom
  let power := Production.power inner.exponent signed
  let term := Production.chain Operator.multiplicative? power
  { expression := Production.chain Operator.additive? term
    exponent := power
    operand := signed }

/-- The productions where this many levels may be opened. -/
def withRoom (finish : Nat) : Nat → Level
  | 0 => closed
  | room + 1 => above finish (withRoom finish room)

end Level

/-- The tree of a whole list of tokens, which were read from a text of `finish` bytes. -/
def Expr.ofTokens (tokens : List Token) (finish : Nat) : Except Refusal Expr := do
  let read ← (Level.withRoom finish nestingLimit).expression tokens
  match read.rest with
  | [] => .ok read.value.expr
  | token :: _ => .error (.malformed token.position)

end Reckoner
