import Reckoner.Web.Condition
import Reckoner.Web.FileName
import Reckoner.Web.MediaType
import Reckoner.Web.Message
import Reckoner.Web.Range

/-!
# Serving files

A file is served with its media type, whole or one range of its bytes. In a tree of files a path
that names a directory leads to its index page; without a slash at its end it is redirected to the
same path with one. Only GET and HEAD read files.
-/
namespace Reckoner.Web

def indexName : List Char := "index.html".toList

/-- The response with one range of a file, or the refusal of what was asked for. -/
def rangeResponse (size : Nat) (header : String) (whole : Response) : Response :=
  match ByteRange.ranges? size header with
  | some [(first, last)] => { whole with status := 206, body := whole.body.extract first (last + 1) }
  | some (_ :: _ :: _) =>
    { whole with status := 416, body := "Cannot serve multipart range requests".toUTF8 }
  | _ => { whole with status := 416, body := .empty }

/-- A file, whole or the part that is asked for. A range that is not plain text is not looked at. -/
def fileResponse (name : List Char) (text : String) (request : Request) : Response :=
  let whole := Response.ofText 200 (mediaType name) text
  let answer := match (request.header? "range").filter isPlainValue with
    | some header => rangeResponse text.utf8ByteSize header whole
    | none => whole
  if request.method = "HEAD" && answer.status < 400 then answer.head else answer

/-- The file at a path of the site. The conditions of the request come before its range. -/
def serveFile (site : Site) (path : Path) (request : Request) : Response :=
  match site.open? path with
  | .nothing => .notFound
  | .unusable => .internalError
  | .file text =>
    (request.conditionFailure? site.changed).getD (fileResponse (path.getLastD []) text request)

/-- One file, whatever the path of the request. -/
def serveSingle (site : Site) (path : Path) (request : Request) : Response :=
  if request.readsFile then serveFile site path request else .methodNotAllowed

/-- The file that a target inside the tree of the site names. -/
def serveTree (site : Site) (inside : Target) (request : Request) : Response :=
  if !request.readsFile then .methodNotAllowed
  else match filePath? inside.path with
    | none => .notFound
    | some path =>
      if !site.isDirectory path then serveFile site path request
      else if inside.path.getLast? = some '/' then serveFile site (path ++ [indexName]) request
      else .redirect inside.withSlash

end Reckoner.Web
