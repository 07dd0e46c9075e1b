import Reckoner.Web.Target

/-!
# Requests and responses

The names of headers are compared without regard to case, and of several headers of one name the
first counts. Methods are compared as they are.
-/
namespace Reckoner.Web

structure Request where
  method : String
  target : Target
  headers : List (String × String)
  body : ByteArray

structure Response where
  status : Nat
  contentType : Option String
  location : Option (List Char)
  body : ByteArray

/-- The same name in lower-case letters. -/
def lowered (name : String) : List Char := name.toList.map Char.toLower

/-- The value of the first header of a name. -/
def Request.header? (request : Request) (name : String) : Option String :=
  (request.headers.find? fun header => lowered header.1 = lowered name).map Prod.snd

/-- Whether a header holds nothing but visible ASCII characters, spaces and tabs. -/
def isPlainValue (value : String) : Bool :=
  value.toList.all fun c => (0x20 ≤ c.toNat && c.toNat < 0x7F) || c = '\t'

/-- Whether the request asks for a file or for what would be answered for it. -/
def Request.readsFile (request : Request) : Bool :=
  request.method = "GET" || request.method = "HEAD"

namespace Response

/-- A response that has no body. -/
def bare (status : Nat) : Response := ⟨status, none, none, .empty⟩

def notFound : Response := bare 404

def methodNotAllowed : Response := bare 405

def notModified : Response := bare 304

def preconditionFailed : Response := bare 412

def internalError : Response := bare 500

def redirect (target : Target) : Response := { bare 307 with location := some target.chars }

def ofText (status : Nat) (contentType text : String) : Response :=
  ⟨status, some contentType, none, text.toUTF8⟩

/-- The same response without its body, as a request for the head alone is answered. -/
def head (response : Response) : Response := { response with body := .empty }

end Response
end Reckoner.Web
