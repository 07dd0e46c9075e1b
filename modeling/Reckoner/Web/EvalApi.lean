import Reckoner.Evaluation
import Reckoner.Json.Printer
import Reckoner.Json.Reader
import Reckoner.Text.Count
import Reckoner.Web.Message

/-!
# The evaluation service

A request carries its length and an object in JSON; its field "expression" is evaluated. A text is
taken as it is, and any other value as its compact JSON text, so only numbers among them have a
value. Every refusal is answered in JSON with the reason.
-/
namespace Reckoner.Web

/-- Why the service has no value for a request. -/
inductive ApiRefusal where
  | lengthMissing
  | lengthInvalid
  | malformedJson
  | notAnObject
  | refused (reason : Refusal)
  deriving Repr, DecidableEq

def ApiRefusal.message : ApiRefusal → String
  | lengthMissing => "Content-Length manquant"
  | lengthInvalid => "Content-Length invalide"
  | malformedJson => "JSON invalide"
  | notAnObject => "JSON invalide : objet attendu"
  | refused reason => reason.message

namespace EvalApi

/-- The greatest number of bytes of a body that is read. -/
def bodyLimit : Nat := 2 * 1024 * 1024

/-- The length that a header gives: digits, perhaps after a plus sign and between blanks, below
2^64. -/
def contentLength? (header : String) : Option Nat :=
  if isPlainValue header then
    (Text.plusCount? (Text.trim header.toList)).filter (· < UInt64.size)
  else none

/-- The expression that a value stands for. -/
def expressionOf : Option Json → String
  | none => ""
  | some .null => ""
  | some (.string text) => text
  | some other => other.render

/-- The value of the expression in a body, or why there is none. -/
def evaluateBody (body : ByteArray) : Except ApiRefusal Float :=
  match (String.fromUTF8? body).bind fun text => Json.parse? text.toList with
  | none => .error .malformedJson
  | some (.object fields) =>
    match evaluate (expressionOf (Json.lookup "expression" fields)) with
    | .ok value => .ok value
    | .error reason => .error (.refused reason)
  | some _ => .error .notAnObject

/-- The value for a request, or why there is none. The length is checked before the body. -/
def evaluateRequest (request : Request) : Except ApiRefusal Float :=
  match request.header? "content-length" with
  | none => .error .lengthMissing
  | some header =>
    match contentLength? header with
    | none => .error .lengthInvalid
    | some _ => evaluateBody request.body

def valueJson (value : Float) : Json := .object [("value", .real value)]

def refusalJson (refusal : ApiRefusal) : Json := .object [("error", .string refusal.message)]

def ofJson (status : Nat) (json : Json) : Response :=
  .ofText status "application/json" json.render

def respond (request : Request) : Response :=
  if bodyLimit < request.body.size then
    .ofText 413 "text/plain; charset=utf-8" "Failed to buffer the request body: length limit exceeded"
  else match evaluateRequest request with
    | .ok value => ofJson 200 (valueJson value)
    | .error refusal => ofJson 400 (refusalJson refusal)

end EvalApi
end Reckoner.Web
