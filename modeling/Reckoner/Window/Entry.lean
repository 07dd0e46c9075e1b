import Reckoner.Registry
import Reckoner.Text.Blank

/-!
# Editing the entry with buttons

A button that inserts text also sets the spaces around it, by its kind, so that what was entered
before keeps its meaning. Deleting takes back what one such button put in: a whole name, or else one
character, and the spaces around it.
-/
namespace Reckoner.Window

/-- How a button's text is spaced from what stands before it. -/
inductive Spacing where
  /-- digits and the point: joined to what stands before -/
  | joined
  /-- constants: a space after a digit or a closing parenthesis -/
  | word
  /-- functions and the opening parenthesis: a space after a digit, a letter or a closing parenthesis -/
  | opening
  /-- operators: one space on either side -/
  | operator
  /-- the closing parenthesis and the comma: no space before -/
  | closing
  deriving Repr, DecidableEq

/-- What a button puts into the entry. -/
structure Insertion where
  text : List Char
  spacing : Spacing
  deriving Repr, DecidableEq

def lastVisible? (entry : List Char) : Option Char :=
  entry.reverse.find? fun c => !Text.isBlank c

/-- Whether text that opens an operand needs a space after this character. -/
def closesOperand (c : Char) : Bool := c.isDigit || c.isAlpha || c = ')'

/-- Whether a name needs a space after this character. -/
def closesNumber (c : Char) : Bool := c.isDigit || c = ')'

def Insertion.apply (insertion : Insertion) (entry : List Char) : List Char :=
  match insertion.spacing with
  | .joined => entry ++ insertion.text
  | .word =>
    if entry.getLast?.any closesNumber then entry ++ ' ' :: insertion.text
    else entry ++ insertion.text
  | .opening =>
    if (lastVisible? entry).any closesOperand then entry ++ ' ' :: insertion.text
    else entry ++ insertion.text
  | .operator =>
    match Text.trimSpaces entry with
    | [] => insertion.text ++ [' ']
    | before => before ++ ' ' :: insertion.text ++ [' ']
  | .closing => Text.trimSpaces entry ++ insertion.text

/-- The names that are deleted as a whole: functions with their parenthesis, then constants. -/
def wholeNames : List (List Char) :=
  Registry.functionNames.map (fun name => name.toList ++ ['(']) ++
    Registry.constantNames.map String.toList

/-- The text without its last symbol, a whole name if it ends in one. -/
def dropSymbol (entry : List Char) : List Char :=
  match wholeNames.find? fun name => name.isSuffixOf entry with
  | some name => entry.take (entry.length - name.length)
  | none => entry.dropLast

def deleteLast (entry : List Char) : List Char :=
  Text.trimSpaces (dropSymbol (Text.trimSpaces entry))

end Reckoner.Window
