import Reckoner.Calendar.Moment

/-!
# The files of a site

A site is a set of text files with their paths, all last changed at one moment. A path names a
directory if it leads on to a file; the empty path, the root, always does.
-/
namespace Reckoner.Web

abbrev Path := List (List Char)

structure Site where
  files : List (Path × String)
  changed : Calendar.Moment

namespace Site

def file? (site : Site) (path : Path) : Option String :=
  (site.files.find? fun file => file.1 = path).map Prod.snd

def isDirectory (site : Site) (path : Path) : Bool :=
  path.isEmpty ||
    site.files.any fun file => path.isPrefixOf file.1 && path.length < file.1.length

/-- The longest name that a file can have, in bytes. -/
def nameLimit : Nat := 255

/-- What a path leads to when a file is to be opened. -/
inductive Found where
  | file (text : String)
  | nothing
  /-- the path cannot be looked up at all -/
  | unusable

/-- Whether looking up the names of a path meets one that is too long in a directory that exists. -/
def meetsLongName (site : Site) (inside : Path) : Path → Bool
  | [] => false
  | name :: rest =>
    site.isDirectory inside &&
      (nameLimit < (String.ofList name).utf8ByteSize || site.meetsLongName (inside ++ [name]) rest)

def open? (site : Site) (path : Path) : Found :=
  if path.any (·.contains '\x00') || site.meetsLongName [] path then .unusable
  else match site.file? path with
    | some text => .file text
    | none => .nothing

end Site
end Reckoner.Web
