import Reckoner.Text.Hex
import Reckoner.Text.Split
import Reckoner.Web.Site

/-!
# From a request path to a file

Percent escapes of a path are decoded into bytes, which must be UTF-8. The names between slashes
lead from the root of the site; a path that would start again at a root, or go back to a parent,
leads nowhere.
-/
namespace Reckoner.Web

/-- The bytes of a text with its percent escapes replaced; a percent sign that starts no escape
stands for itself. -/
def decodePercents : List Char → List UInt8
  | [] => []
  | '%' :: a :: b :: rest =>
    match Text.hexDigit? a, Text.hexDigit? b with
    | some high, some low => .ofNat (high * 16 + low) :: decodePercents rest
    | _, _ => '%'.toUInt8 :: decodePercents (a :: b :: rest)
  | c :: rest => String.utf8EncodeChar c ++ decodePercents rest

/-- The names between the slashes of a text; where no name stands, and where a name is one point,
the path stays where it is. -/
def names (cs : List Char) : Path :=
  (Text.split '/' cs).filter fun name => name ≠ [] ∧ name ≠ ['.']

/-- The path in a site that a request path leads to. -/
def filePath? (requested : List Char) : Option Path :=
  match String.fromUTF8? ⟨(decodePercents (requested.dropWhile (· = '/'))).toArray⟩ with
  | none => none
  | some text =>
    match text.toList with
    | '/' :: _ => none
    | cs =>
      if (names cs).contains ['.', '.'] then none else some (names cs)

end Reckoner.Web
