import Reckoner.Window.Entry

/-!
# Buttons

The buttons of the window with their labels. Those for constants and functions come from the tables
of what an expression may use.
-/
namespace Reckoner.Window

inductive Button where
  | insert (insertion : Insertion)
  | clearEntry
  | clearResults
  | reset
  | delete
  | equals
  deriving Repr, DecidableEq

namespace Button

/-- A button whose label is the text that it inserts. -/
def labelled (spacing : Spacing) (label : String) : String × Button :=
  (label, insert ⟨label.toList, spacing⟩)

def actions : List (String × Button) :=
  [("C", clearEntry), ("CLR", clearResults), ("AC", reset), ("DEL", delete), ("=", equals)]

def parentheses : List (String × Button) :=
  [labelled .opening "(", labelled .closing ")", (",", insert ⟨[',', ' '], .closing⟩)]

def operators : List (String × Button) :=
  ["+", "-", "*", "/", "^"].map (labelled .operator)

def digits : List (String × Button) :=
  ["7", "8", "9", "4", "5", "6", "1", "2", "3", ".", "0"].map (labelled .joined)

def constants : List (String × Button) :=
  Registry.constantNames.map (labelled .word)

def functions : List (String × Button) :=
  Registry.functionNames.map fun name => (name, insert ⟨name.toList ++ ['('], .opening⟩)

def all : List (String × Button) :=
  actions ++ parentheses ++ operators ++ digits ++ constants ++ functions

def withLabel? (label : String) : Option Button :=
  (all.find? fun entry => entry.1 = label).map Prod.snd

end Button
end Reckoner.Window
