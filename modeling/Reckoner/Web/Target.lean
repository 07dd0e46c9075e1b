/-!
# Request targets

The target of a request is a path with an optional query, perhaps after a scheme and an authority.
Paths are kept as they were sent; only file names are decoded, where files are looked up.
-/
namespace Reckoner.Web

structure Target where
  /-- the scheme and the authority, as far as they were sent -/
  origin : List Char
  path : List Char
  query : Option (List Char)
  deriving Repr, DecidableEq

namespace Target

/-- The path and the query of a text that has no origin. -/
def ofPathAndQuery (origin cs : List Char) : Target :=
  let path := cs.takeWhile (· ≠ '?')
  let query := (cs.dropWhile (· ≠ '?')).tail?
  ⟨origin, path, query⟩

def isSchemeChar (c : Char) : Bool := c.isAlphanum || c = '+' || c = '-' || c = '.'

/-- The scheme at the head of a text with its mark, and the rest. -/
def splitScheme? (cs : List Char) : Option (List Char × List Char) :=
  match cs.dropWhile isSchemeChar with
  | ':' :: '/' :: '/' :: rest => some (cs.takeWhile isSchemeChar ++ [':', '/', '/'], rest)
  | _ => none

/-- A target as it was sent; a fragment is no part of it, and after an authority the path is at
least one slash. -/
def parse (text : List Char) : Target :=
  let cs := text.takeWhile (· ≠ '#')
  match cs with
  | '/' :: _ => ofPathAndQuery [] cs
  | _ =>
    match splitScheme? cs with
    | none => ofPathAndQuery [] cs
    | some (scheme, rest) =>
      let inAuthority (c : Char) : Bool := c ≠ '/' && c ≠ '?'
      let origin := scheme ++ rest.takeWhile inAuthority
      match rest.dropWhile inAuthority with
      | '/' :: after => ofPathAndQuery origin ('/' :: after)
      | after => ofPathAndQuery origin ('/' :: after)

/-- The target as it is sent. -/
def chars (t : Target) : List Char := t.origin ++ t.path ++ t.query.elim [] ('?' :: ·)

/-- The same target with a slash at the end of its path. -/
def withSlash (t : Target) : Target := { t with path := t.path ++ ['/'] }

end Target
end Reckoner.Web
