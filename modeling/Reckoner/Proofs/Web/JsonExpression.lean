import Mathlib.Data.String.Basic
import Reckoner.Proofs.FrontEnds
import Reckoner.Proofs.Json.Expressions
import Reckoner.Proofs.Json.Object
import Reckoner.Proofs.Json.Reader

/-!
# Expressions that are no texts

The field "expression" of a body may be any value. A number is answered with itself, as the reader
holds it; a truth value, an array or an object is refused; and where there is no value, there is no
expression. So a value is given to texts and numbers only.

The reader holds whole numbers that fit 64 bits as they are, and a number whose digits and whose
power of ten are exact in double precision as the nearest one. Beyond that it may miss the nearest
number.
-/
namespace Reckoner.Web

open Binary64
open EvalApi (bodyLimit fields? length?)

/-- A call of the service with a length. -/
structure HasLength (request : Request) : Prop where
  method : request.method = "POST"
  path : request.target.path = evaluationPath
  length : ∃ n, length? request = some n

/-- The answer with a value. -/
def given (x : Float) : Response := EvalApi.ofJson 200 (EvalApi.valueJson x)

/-- The answer with the reason of a refusal. -/
def refused (refusal : Refusal) : Response :=
  EvalApi.ofJson 400 (EvalApi.refusalJson (.refused refusal))

/-- The answer with the verdict of an evaluation. -/
def verdict : Except Refusal Float → Response
  | .ok x => given x
  | .error refusal => refused refusal

namespace HasLength

variable {request : Request} (site : Site)

theorem isCall (h : HasLength request) (hsize : request.body.size ≤ bodyLimit) : IsCall request :=
  ⟨h.method, h.path, hsize⟩

theorem respond_eq (h : HasLength request) (hsize : request.body.size ≤ bodyLimit)
    {fields : List (String × Json)} (hfields : fields? request.body = some fields) :
    respond site request =
      verdict (evaluate (EvalApi.expressionOf (Json.lookup "expression" fields))) := by
  obtain ⟨n, hlength⟩ := h.length
  have heval : EvalApi.evaluateRequest request =
      (evaluate (EvalApi.expressionOf (Json.lookup "expression" fields))).mapError .refused := by
    rw [EvalApi.evaluateRequest_of_length hlength, EvalApi.evaluateBody_of_fields hfields]
  have hcall := h.isCall hsize
  cases hverdict : evaluate (EvalApi.expressionOf (Json.lookup "expression" fields)) with
  | ok x => exact hcall.respond_of_value site (heval.trans (by rw [hverdict]; rfl))
  | error refusal => exact hcall.respond_of_refusal site (heval.trans (by rw [hverdict]; rfl))

end HasLength

theorem held_of_fields? {body : ByteArray} {fields : List (String × Json)}
    (h : fields? body = some fields) : (Json.object fields).Held := by
  rw [fields?] at h
  split at h
  · next hjson =>
    cases h
    obtain ⟨text, -, hparse⟩ := Option.bind_eq_some_iff.mp hjson
    exact Json.held_of_parse? hparse
  · cases h

end Reckoner.Web
