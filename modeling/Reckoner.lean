import Reckoner.Main
import Reckoner.Server.Program
import Reckoner.Window.Basic
import Reckoner.Proofs.Expr.Completeness
import Reckoner.Proofs.Expr.Budget
import Reckoner.Proofs.Expr.RoundTrip
import Reckoner.Proofs.Expr.Faults
import Reckoner.Proofs.Expr.Names
import Reckoner.Proofs.Token.Seams
import Reckoner.Proofs.Window.History
import Reckoner.Proofs.Expr.Carets
import Reckoner.Proofs.Expr.Substitution
import Reckoner.Proofs.Expr.Line
import Reckoner.Proofs.FrontEnds
import Reckoner.Proofs.Decimal.Displayed
import Reckoner.Proofs.Window.Display
import Reckoner.Proofs.Expr.Heights
import Reckoner.Proofs.Window.Exponents
import Reckoner.Proofs.Expr.Numerals
import Reckoner.Proofs.Web.JsonExpression
import Reckoner.Proofs.Web.Redirects
import Reckoner.Proofs.Window.Column
import Reckoner.Proofs.Expr.Thrift
import Reckoner.Proofs.Expr.Arity
