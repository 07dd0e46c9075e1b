import Reckoner.Decimal.Layout
import Reckoner.Text.Blank

/-!
# Tokens

A token is a lexeme with the byte at which it starts. The token line shows the lexemes one space
apart, numbers in their plain notation.
-/
namespace Reckoner

inductive Lexeme where
  | number (value : Float)
  | name (text : String)
  | plus
  | minus
  | star
  | doubleStar
  | slash
  | comma
  | leftParen
  | rightParen
  deriving DecidableEq

structure Token where
  lexeme : Lexeme
  position : Nat
  deriving DecidableEq

def Lexeme.chars : Lexeme → List Char
  | number value => Decimal.plain.chars value
  | name text => text.toList
  | plus => ['+']
  | minus => ['-']
  | star => ['*']
  | doubleStar => ['*', '*']
  | slash => ['/']
  | comma => [',']
  | leftParen => ['(']
  | rightParen => [')']

/-- The lexemes one space apart. -/
def Token.lineChars : List Token → List Char
  | [] => []
  | [token] => token.lexeme.chars
  | token :: rest => token.lexeme.chars ++ ' ' :: lineChars rest

def Token.line (tokens : List Token) : String := .ofList (lineChars tokens)

end Reckoner
