import Reckoner.Web.Router

/-!
# One request on a connection

The body of a request ends where its length says, or it is sent in chunks that say where it ends;
one that says neither has no body. The response to a request for the head alone is sent without its
body.
-/
namespace Reckoner.Web

/-- How the end of a body is told. -/
inductive Framing where
  | untold
  | length (text : String)
  | chunked
  deriving Repr, DecidableEq

/-- A request as a client sends it. -/
structure Sent where
  method : String
  target : Target
  framing : Framing
  body : ByteArray

/-- The number of bytes that a length tells. Nothing but digits may stand in it. -/
def frameLength? (text : String) : Option Nat :=
  (Text.count? text.toList).filter (· < UInt64.size)

/-- The request as a server receives it, if the end of its body is well told. -/
def Sent.received? (sent : Sent) : Option Request :=
  match sent.framing with
  | .untold => some ⟨sent.method, sent.target, [], .empty⟩
  | .chunked => some ⟨sent.method, sent.target, [], sent.body⟩
  | .length text => (frameLength? text).map fun n =>
    ⟨sent.method, sent.target, [("content-length", text)], sent.body.extract 0 n⟩

/-- What the client receives from a server with this site. -/
def answer (site : Site) (sent : Sent) : Response :=
  match sent.received? with
  | none => .bare 400
  | some request =>
    let response := respond site request
    if request.method = "HEAD" then response.head else response

end Reckoner.Web
