import Reckoner.Decimal.Layout
import Reckoner.Expr.Basic

/-!
# Trees as text

Every sign and every binary operation stands in parentheses, so that the text shows how priorities
were resolved. Numbers are in their plain notation.
-/
namespace Reckoner.Expr

mutual

def chars : Expr → List Char
  | number value => Decimal.plain.chars value
  | name text => text.toList
  | signed sign operand => '(' :: sign.symbol.toList ++ operand.chars ++ [')']
  | binary operator left right =>
    '(' :: left.chars ++ ' ' :: operator.symbol.toList ++ ' ' :: right.chars ++ [')']
  | call function arguments => function.toList ++ '(' :: listChars arguments ++ [')']

/-- Arguments, a comma and a space apart. -/
def listChars : List Expr → List Char
  | [] => []
  | [last] => last.chars
  | first :: rest => first.chars ++ ',' :: ' ' :: listChars rest

end

def render (e : Expr) : String := .ofList e.chars

end Reckoner.Expr
