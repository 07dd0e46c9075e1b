import Reckoner.Text.Blank
import Reckoner.Text.Count
import Reckoner.Text.Split

/-!
# Which log lines are shown

A filter is a list of directives. A directive names a target, or the start of some, and the level
down to which lines of that target are shown; the one that says most about a line decides, the later
of two that say as much. A directive may also ask for an enclosing span or for a field of the line.
The server logs at start-up outside of any span.
-/
namespace Reckoner.Server

/-- How much is shown: nothing, or all lines down to one severity. -/
inductive Verbosity where
  | off
  | error
  | warn
  | info
  | debug
  | trace
  deriving Repr, DecidableEq

def Verbosity.named : List (String × Verbosity) :=
  [("off", off), ("error", error), ("warn", warn), ("info", info), ("debug", debug), ("trace", trace)]

/-- A name in letters of either case, or the place of a name among the six. -/
def Verbosity.parse? (text : List Char) : Option Verbosity :=
  match Text.plusCount? text with
  | some place => (named[place]?).map Prod.snd
  | none => (named.find? fun entry => entry.1.toList = text.map Char.toLower).map Prod.snd

structure Directive where
  /-- how the names of the targets begin; empty if it is about every target -/
  target : List Char
  /-- whether it is only about lines inside some span, or with some value of a field -/
  needsContext : Bool
  /-- the field that a line must have -/
  field : Option (List Char)
  verbosity : Verbosity
  deriving Repr, DecidableEq

namespace Directive

/-- The characters that may come first, besides the bracket of a span. -/
def startsTarget (c : Char) : Bool := c.isAlphanum || c = '-' || c = ':' || c = '_' || 0x80 ≤ c.toNat

/-- The level after a directive's equals sign, the greatest if there is no text. -/
def levelAfter? (text : List Char) : Option Verbosity :=
  if text = [] then some .trace else Verbosity.parse? text

/-- A directive whose text goes on after its span. -/
def afterSpan? (target : List Char) (needsContext : Bool) (field : Option (List Char)) :
    List Char → Option Directive
  | '=' :: level => (levelAfter? level).map (⟨target, needsContext, field, ·⟩)
  | blanks => if blanks.all Text.isBlank then some ⟨target, needsContext, field, .trace⟩ else none

/-- A directive whose text goes on inside the brackets of its span: a name, and perhaps a field in
braces, with or without a value. -/
def inSpan? (target : List Char) (text : List Char) : Option Directive :=
  let inName (c : Char) : Bool := c ≠ ']' && c ≠ '\x7b'
  let name := text.takeWhile inName
  match text.dropWhile inName with
  | ']' :: rest => afterSpan? target true none rest
  | '\x7b' :: rest =>
    let field := rest.takeWhile (· ≠ '\x7d')
    match rest.dropWhile (· ≠ '\x7d') with
    | '\x7d' :: ']' :: rest =>
      if field = [] then none
      else afterSpan? target (name ≠ [] || field.contains '=') (some (field.takeWhile (· ≠ '='))) rest
    | _ => none
  | _ => none

/-- A level, a target, or a target with a level or a span. -/
def parseBare? (text : List Char) : Option Directive :=
  let inTarget (c : Char) : Bool := c ≠ '=' && c ≠ '['
  match text with
  | [] => none
  | '[' :: rest => inSpan? [] rest
  | first :: _ =>
    if !startsTarget first then none
    else
      let target := text.takeWhile inTarget
      match text.dropWhile inTarget with
      | '=' :: level => (levelAfter? level).map (⟨target, false, none, ·⟩)
      | '[' :: rest => inSpan? target rest
      | _ => match Verbosity.parse? text with
        | some verbosity => some ⟨[], false, none, verbosity⟩
        | none => some ⟨text, false, none, .trace⟩

/-- A directive in its blanks. A blank in front belongs to the target, and then no level may follow.
-/
def parse? (text : List Char) : Option Directive :=
  if text.head?.any Text.isBlank then
    if text.contains '=' then none
    else (parseBare? (text.dropWhile Text.isBlank)).map ({ · with target := text })
  else parseBare? text

end Directive

/-- What is known of a line before it is written. -/
structure LogLine where
  target : List Char
  fields : List (List Char)

/-- Whether a directive is about a line outside of any span. -/
def Directive.covers (directive : Directive) (line : LogLine) : Bool :=
  !directive.needsContext && directive.target.isPrefixOf line.target &&
    directive.field.all (line.fields.contains ·)

/-- Whether a directive says at least as much about a line as another one. -/
def Directive.outweighs (directive other : Directive) : Bool :=
  other.target.length < directive.target.length ||
    other.target.length = directive.target.length && (directive.field.isSome || other.field.isNone)

abbrev LogFilter := List Directive

namespace LogFilter

/-- The directives of a text, with commas between them. A filter without any shows errors. -/
def parse? (text : String) : Option LogFilter :=
  match (Text.split ',' text.toList).filter (· ≠ []) with
  | [] => some [⟨[], false, none, .error⟩]
  | pieces => pieces.mapM Directive.parse?

/-- The directive that decides about a line. -/
def decisive? (filter : LogFilter) (line : LogLine) : Option Directive :=
  (filter.filter (·.covers line)).foldl (fun best directive =>
    match best with
    | none => some directive
    | some other => if directive.outweighs other then some directive else best) none

def showsError (filter : LogFilter) (line : LogLine) : Bool :=
  (filter.decisive? line).any (·.verbosity ≠ .off)

end LogFilter
end Reckoner.Server
