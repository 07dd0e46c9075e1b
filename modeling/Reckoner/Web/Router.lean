import Reckoner.Web.EvalApi
import Reckoner.Web.Files

/-!
# Routes

The service is at one path and answers POST alone; the index page has two paths; below "/static" is
the tree of the site. Everything else is not found.
-/
namespace Reckoner.Web

/-- What answers a request. -/
inductive Route where
  | evaluation
  | indexPage
  /-- the tree of the site, and the target inside it -/
  | tree (inside : Target)
  | nowhere
  deriving Repr, DecidableEq

def evaluationPath : List Char := "/api/eval".toList

def indexPaths : List (List Char) := ["/".toList, "/index.html".toList]

def treePath : List Char := "/static".toList

/-- The path below the root of the tree, which starts with a slash. -/
def belowTree? (path : List Char) : Option (List Char) :=
  if treePath.isPrefixOf path then
    match path.drop treePath.length with
    | [] => some ['/']
    | '/' :: '/' :: rest => some ('/' :: rest)
    | '/' :: rest => some ('/' :: rest)
    | _ => none
  else none

def Route.of (request : Request) : Route :=
  let target := request.target
  if target.path = evaluationPath then
    if request.method = "POST" then evaluation else nowhere
  else if target.path ∈ indexPaths then indexPage
  else match belowTree? target.path with
    | some below => tree { target with path := below }
    | none => nowhere

/-- The response of a server with this site. -/
def respond (site : Site) (request : Request) : Response :=
  match Route.of request with
  | .evaluation => EvalApi.respond request
  | .indexPage => serveSingle site [indexName] request
  | .tree inside => serveTree site inside request
  | .nowhere => .notFound

end Reckoner.Web
