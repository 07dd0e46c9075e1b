/-!
# Refusals

An expression is either evaluated or refused, and a refusal names its cause. An operation outside
its domain is a fault; a fault met while an expression is evaluated refuses the expression.
-/
namespace Reckoner

/-- Why an operation has no value for its operands. -/
inductive Fault where
  | divisionByZero
  | negativeRoot
  | arity (name : String) (expected received : Nat)
  deriving Repr, DecidableEq

/-- Why an expression is refused. -/
inductive Refusal where
  | empty
  /-- the byte, in the text that was read, where it stops being an expression -/
  | malformed (position : Nat)
  | unknownName (name : String)
  | unknownFunction (name : String)
  | forbidden (construct : String)
  | invalidOperation (detail : String)
  | tooNested (limit : Nat)
  deriving Repr, DecidableEq

def Fault.message : Fault → String
  | divisionByZero => "division par zéro"
  | negativeRoot => "racine carrée : domaine (x doit être >= 0)"
  | arity name expected received =>
    s!"{name} attend {expected} argument(s), {received} reçu(s)"

def Fault.toRefusal (fault : Fault) : Refusal := .invalidOperation fault.message

def Refusal.message : Refusal → String
  | empty => "expression vide"
  | malformed _ => "syntaxe invalide"
  | unknownName name => "nom non autorisé : " ++ name
  | unknownFunction name => "fonction non autorisée : " ++ name
  | forbidden construct => "élément non autorisé : " ++ construct
  | invalidOperation detail => "opération invalide : " ++ detail
  | tooNested limit => s!"expression trop imbriquée (limite : {limit})"

end Reckoner
