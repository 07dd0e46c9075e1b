import Reckoner.Expr.Parser
import Reckoner.Expr.Printer
import Reckoner.Registry
import Reckoner.Token.Lexer

/-!
# Evaluation

Operands and arguments are evaluated from left to right, and the first refusal is the answer. A sign
and an operator are looked up before their operands; the name and the number of arguments of a call
are checked before its arguments.
-/
namespace Reckoner

/-- The value of an operation, or the refusal that its fault gives. -/
def Fault.refuse {α : Type} (result : Except Fault α) : Except Refusal α :=
  match result with
  | .ok value => .ok value
  | .error fault => .error fault.toRefusal

namespace Expr

mutual

def evaluate : Expr → Except Refusal Float
  | number value => .ok value
  | name text =>
    match Registry.constant? text with
    | some value => .ok value
    | none => .error (.unknownName text)
  | signed sign operand =>
    match Registry.sign? sign with
    | some f => do return f (← operand.evaluate)
    | none => .error (.forbidden ("opérateur unaire " ++ sign.symbol))
  | binary operator left right =>
    match Registry.operator? operator with
    | some f => do
      let a ← left.evaluate
      let b ← right.evaluate
      Fault.refuse (f a b)
    | none => .error (.forbidden ("opérateur " ++ operator.symbol))
  | call function arguments =>
    match Registry.function? function with
    | none => .error (.unknownFunction function)
    | some f =>
      if arguments.length = f.arity then do
        Fault.refuse (f.apply (← evaluateAll arguments))
      else
        .error (.invalidOperation
          s!"{f.name} attend {f.arity} argument(s), {arguments.length} reçu(s)")

/-- The values of arguments, from left to right. -/
def evaluateAll : List Expr → Except Refusal (List Float)
  | [] => .ok []
  | first :: rest => do
    let value ← first.evaluate
    return value :: (← evaluateAll rest)

end

end Expr

/-- What was read of an expression: its tokens and its tree. -/
structure Reading where
  tokens : List Token
  expr : Expr

/-- What is shown of an expression that was evaluated: tokens, tree and depth. -/
structure Trace where
  tokens : String
  tree : String
  depth : Nat
  deriving Repr, DecidableEq

def Reading.trace (reading : Reading) : Trace where
  tokens := Token.line reading.tokens
  tree := reading.expr.render
  depth := reading.expr.depth

/-- Reads an expression: blanks at the ends are dropped and carets replaced before the text is cut
into tokens, and positions count the bytes of that text. -/
def read (text : String) : Except Refusal Reading :=
  match Text.trim text.toList with
  | [] => .error .empty
  | trimmed => do
    let source := expandCarets trimmed
    let tokens ← Token.scan source
    let expr ← Expr.ofTokens tokens (Text.byteLength source)
    return ⟨tokens, expr⟩

def evaluate (text : String) : Except Refusal Float := do
  (← read text).expr.evaluate

/-- The value together with what was read. -/
def evaluateTraced (text : String) : Except Refusal (Float × Trace) := do
  let reading ← read text
  let value ← reading.expr.evaluate
  return (value, reading.trace)

end Reckoner
