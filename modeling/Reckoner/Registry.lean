import Reckoner.Expr.Basic
import Reckoner.Refusal

/-!
# What an expression may use

Everything that evaluation resolves is in one of four tables: signs, operators, constants and
functions. What is outside the tables is refused.
-/
namespace Reckoner

namespace Operation

/-- A zero divisor is refused, whatever its sign. -/
def divide (a b : Float) : Except Fault Float :=
  if b == 0 then .error .divisionByZero else .ok (a / b)

/-- A negative radicand is refused; negative zero is not negative. -/
def squareRoot (x : Float) : Except Fault Float :=
  if x < 0 then .error .negativeRoot else .ok x.sqrt

/-- A computation as a function of a list of arguments. One argument is expected, and any other
number of them is a fault under the given name. -/
def unary (name : String) (compute : Float → Except Fault Float) :
    List Float → Except Fault Float
  | [x] => compute x
  | arguments => .error (.arity name 1 arguments.length)

/-- The same for a computation of two arguments. -/
def binary (name : String) (compute : Float → Float → Except Fault Float) :
    List Float → Except Fault Float
  | [a, b] => compute a b
  | arguments => .error (.arity name 2 arguments.length)

end Operation

def Sign.apply : Sign → Float → Float
  | plus, x => x
  | minus, x => -x

def Operator.apply : Operator → Float → Float → Except Fault Float
  | add, a, b => .ok (a + b)
  | sub, a, b => .ok (a - b)
  | mul, a, b => .ok (a * b)
  | div, a, b => Operation.divide a b
  | pow, a, b => .ok (a.pow b)

/-- An entry of the table of functions. The number of arguments stands in the entry, where a call is
checked against it, and again in the operation. -/
structure Function where
  name : String
  arity : Nat
  apply : List Float → Except Fault Float

namespace Registry

def signs : List (Sign × (Float → Float)) :=
  [(.plus, Sign.plus.apply), (.minus, Sign.minus.apply)]

def operators : List (Operator × (Float → Float → Except Fault Float)) :=
  [(.add, Operator.add.apply), (.sub, Operator.sub.apply), (.mul, Operator.mul.apply),
   (.div, Operator.div.apply), (.pow, Operator.pow.apply)]

def constants : List (String × Float) :=
  [("pi", 3.141592653589793), ("e", 2.718281828459045)]

def functions : List Function :=
  [⟨"sqrt", 1, Operation.unary "sqrt" Operation.squareRoot⟩,
   ⟨"power", 2, Operation.binary "power" Operator.pow.apply⟩,
   ⟨"sin", 1, Operation.unary "sin" fun x => .ok x.sin⟩,
   ⟨"cos", 1, Operation.unary "cos" fun x => .ok x.cos⟩,
   ⟨"tan", 1, Operation.unary "tan" fun x => .ok x.tan⟩]

def sign? (sign : Sign) : Option (Float → Float) :=
  (signs.find? fun entry => entry.1 = sign).map Prod.snd

def operator? (operator : Operator) : Option (Float → Float → Except Fault Float) :=
  (operators.find? fun entry => entry.1 = operator).map Prod.snd

def constant? (name : String) : Option Float :=
  (constants.find? fun entry => entry.1 = name).map Prod.snd

def function? (name : String) : Option Function :=
  functions.find? fun f => f.name = name

def constantNames : List String := constants.map Prod.fst

def functionNames : List String := functions.map Function.name

end Registry
end Reckoner
