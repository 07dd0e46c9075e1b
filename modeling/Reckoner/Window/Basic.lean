import Reckoner.Decimal.Fixed
import Reckoner.Evaluation
import Reckoner.Window.Button

/-!
# The calculator window

The window holds an entry, the last value with its raw number, the last refusal, and what was read
of the expression that gave the value. A refusal leaves the value on display and takes away what was
read. Events are what a user does to it; drawing a frame grants a pending request for the focus, and
every action makes a new one. The field of the entry has one line and gives up its focus when Enter
is pressed, so Enter evaluates only while such a request is pending.
-/
namespace Reckoner

/-- What the panel shows of an expression, as text. -/
structure Window.Panel where
  tokens : String
  tree : String
  depth : String
  deriving Repr, DecidableEq

structure Window where
  entry : String
  value : String
  refusal : String
  raw : Option Float
  panel : Window.Panel
  decimals : Nat
  /-- whether a request for the focus is pending -/
  focused : Bool

namespace Window

def Panel.blank : Panel := ⟨"", "", ""⟩

def Panel.ofTrace (trace : Trace) : Panel := ⟨trace.tokens, trace.tree, toString trace.depth⟩

def defaultDecimals : Nat := 10

/-- Beyond this number of decimals a double has nothing more to say. -/
def decimalsLimit : Nat := 17

def initial : Window where
  entry := ""
  value := ""
  refusal := ""
  raw := none
  panel := .blank
  decimals := defaultDecimals
  focused := true

def clearEntry (w : Window) : Window := { w with entry := "", focused := true }

def clearResults (w : Window) : Window :=
  { w with value := "", raw := none, refusal := "", panel := .blank, focused := true }

def reset (w : Window) : Window :=
  { w.clearResults with entry := "", decimals := defaultDecimals }

/-- Shows a refusal; the last value stays. -/
def showRefusal (message : String) (w : Window) : Window :=
  { w with refusal := message, panel := .blank, focused := true }

def showValue (raw : Float) (text : String) (panel : Panel) (w : Window) : Window :=
  { w with refusal := "", raw := some raw, value := text, panel := panel, focused := true }

def setDecimals (n : Nat) (w : Window) : Window :=
  { w with decimals := min n decimalsLimit, focused := true }

/-- Changes the number of decimals and shows the last value with it. -/
def changeDecimals (n : Nat) (w : Window) : Window :=
  let changed := w.setDecimals n
  match w.raw with
  | none => changed
  | some raw => { changed with value := Decimal.fixed changed.decimals raw }

def edit (change : List Char → List Char) (w : Window) : Window :=
  { w with entry := .ofList (change w.entry.toList), focused := true }

/-- The message of a refusal; for a malformed text with the place, counted from one. -/
def refusalMessage : Refusal → String
  | .malformed position => s!"{(Refusal.malformed position).message} (près du caractère {position + 1})"
  | other => other.message

def evaluateEntry (w : Window) : Window :=
  match evaluateTraced w.entry with
  | .ok (raw, trace) => w.showValue raw (Decimal.fixed w.decimals raw) (.ofTrace trace)
  | .error refusal => w.showRefusal (refusalMessage refusal)

inductive Event where
  /-- the entry is given this text, as typing does -/
  | assign (text : String)
  | press (button : Button)
  /-- a number is set in the field for the decimals -/
  | decimals (n : Int)
  | enter
  | escape
  /-- a frame is drawn and nothing else happens -/
  | frame

def draw (w : Window) : Window := { w with focused := false }

def press (w : Window) : Button → Window
  | .insert insertion => w.edit insertion.apply
  | .clearEntry => w.clearEntry
  | .clearResults => w.clearResults
  | .reset => w.reset
  | .delete => w.edit deleteLast
  | .equals => w.evaluateEntry

/-- The number of decimals that the field accepts for this number. -/
def clampDecimals (n : Int) : Nat := min n.toNat decimalsLimit

/-- The window after an event. The key Enter evaluates only while a request for the focus is
pending, and the field for the decimals acts only if its number changes. -/
def step (w : Window) : Event → Window
  | .assign text => { w with entry := text }
  | .press button => w.draw.press button
  | .decimals n =>
    if clampDecimals n = w.decimals then w.draw else w.changeDecimals (clampDecimals n)
  | .enter => if w.focused then w.evaluateEntry else w.draw
  | .escape => w.clearEntry.draw
  | .frame => w.draw

/-- The window after some events. -/
def run (events : List Event) : Window := events.foldl step initial

end Window
end Reckoner
