import Reckoner.Text.Split
import Reckoner.Web.ExtensionTable

/-!
# Media types of files

The type of a file is told by the extension of its name, in letters of any case.
-/
namespace Reckoner.Web

/-- The type of a file whose extension says nothing. -/
def unknownMediaType : String := "application/octet-stream"

/-- What stands after the last point of a file name, if something stands before it. -/
def extension? (name : List Char) : Option (List Char) :=
  let reversed := name.reverse
  match reversed.dropWhile (· ≠ '.') with
  | _ :: _ :: _ => some (reversed.takeWhile (· ≠ '.')).reverse
  | _ => none

/-- The type of files with this extension. -/
def typeOfExtension? (extension : List Char) : Option String :=
  (typesWithExtensions.find? fun entry =>
    (Text.split ' ' entry.2.toList).contains (extension.map Char.toLower)).map Prod.fst

def mediaType (name : List Char) : String :=
  ((extension? name).bind typeOfExtension?).getD unknownMediaType

end Reckoner.Web
