import Mathlib.Data.List.DropRight
import Reckoner.Window.Basic

/-!
# The window and its history

What the window holds after some events can be read off the events. The entry depends on the events
that edit it and on no others. The number of decimals is the last one that was set since the window
was reset. The raw number, the refusal and the panel come from the evaluations since the results
were last cleared: the number from the last that succeeded, the rest from the last of all. What is
displayed is the raw number with the present number of decimals, also while a refusal stands.

An event is described by what it does to each of these parts, and the description of a run follows
by induction on the events, the last one first.
-/
namespace Reckoner.Window

/-- What an evaluation gives. -/
abbrev Outcome := Except Refusal (Float × Trace)

namespace Event

/-- The events that take the value, the refusal and the panel away. -/
def clears : Event → Bool
  | press .clearResults | press .reset => true
  | _ => false

end Event

/-- The button for the value evaluates, and so does the key Enter while a request for the focus is
pending. -/
def evaluates (w : Window) : Event → Bool
  | .press .equals => true
  | .enter => w.focused
  | _ => false

/-- Each event together with the events before it. -/
def momentsFrom (before : List Event) : List Event → List (List Event × Event)
  | [] => []
  | e :: later => (before, e) :: momentsFrom (before ++ [e]) later

def moments (events : List Event) : List (List Event × Event) := momentsFrom [] events

/-- What the evaluation at this moment gives, if there is one. -/
def outcome? (moment : List Event × Event) : Option Outcome :=
  if (run moment.1).evaluates moment.2 then some (evaluateTraced (run moment.1).entry) else none

/-- What the evaluations since the results were last cleared give, in order. -/
def outcomes (events : List Event) : List Outcome :=
  ((moments events).rtakeWhile fun moment => !moment.2.clears).filterMap outcome?

/-- The number of the last evaluation that succeeds. -/
def lastValue? (outcomes : List Outcome) : Option Float :=
  (outcomes.filterMap Except.toOption).getLast?.map Prod.fst

theorem lastValue?_concat (outcomes : List Outcome) (outcome : Outcome) :
    lastValue? (outcomes ++ [outcome]) =
      (outcome.toOption.map Prod.fst).or (lastValue? outcomes) := by
  cases outcome <;> simp [lastValue?, Except.toOption]

theorem changeDecimals_eq (n : Nat) (w : Window) :
    w.changeDecimals n =
      { w.setDecimals n with
        value := w.raw.elim w.value (Decimal.fixed (min n decimalsLimit)) } := by
  unfold changeDecimals
  cases w.raw <;> rfl

/-- The raw number with the present number of decimals is on display. -/
def DisplaysRaw (w : Window) : Prop := w.value = w.raw.elim "" (Decimal.fixed w.decimals)

theorem DisplaysRaw.evaluateEntry {w : Window} (h : DisplaysRaw w) :
    DisplaysRaw w.evaluateEntry := by
  unfold Window.evaluateEntry
  split
  · rfl
  · exact h

theorem DisplaysRaw.changeDecimals {w : Window} (h : DisplaysRaw w) (n : Nat) :
    DisplaysRaw (w.changeDecimals n) := by
  rw [changeDecimals_eq]
  unfold DisplaysRaw at h ⊢
  cases hraw : w.raw <;> simp_all [setDecimals]

theorem DisplaysRaw.step {w : Window} (h : DisplaysRaw w) (e : Event) : DisplaysRaw (w.step e) := by
  cases e with
  | press button =>
    cases button with
    | equals => exact DisplaysRaw.evaluateEntry (w := w.draw) h
    | clearResults | reset => rfl
    | _ => simpa [DisplaysRaw, Window.step, press, edit, clearEntry, draw] using h
  | decimals n =>
    rw [Window.step]
    split
    · exact h
    · exact h.changeDecimals _
  | enter =>
    rw [Window.step]
    split
    · exact h.evaluateEntry
    · exact h
  | _ => exact h

/-- What is shown of the last evaluation. A refusal stands alone; a value stands with the panel of
the expression that gave it. -/
def ShowsLast (w : Window) : Option Outcome → Prop
  | none => w.refusal = "" ∧ w.panel = .blank
  | some (.ok (value, trace)) => w.raw = some value ∧ w.refusal = "" ∧ w.panel = .ofTrace trace
  | some (.error refusal) => w.refusal = refusalMessage refusal ∧ w.panel = .blank

/-- The raw number is that of the last success, and the last evaluation is shown. -/
def Reflects (w : Window) (outcomes : List Outcome) : Prop :=
  w.raw = lastValue? outcomes ∧ ShowsLast w outcomes.getLast?

theorem Reflects.congr {w w' : Window} {outcomes : List Outcome} (h : Reflects w outcomes)
    (hraw : w'.raw = w.raw) (hrefusal : w'.refusal = w.refusal) (hpanel : w'.panel = w.panel) :
    Reflects w' outcomes := by
  obtain ⟨hvalue, hlast⟩ := h
  refine ⟨hraw.trans hvalue, ?_⟩
  unfold ShowsLast at hlast ⊢
  rw [hraw, hrefusal, hpanel]
  exact hlast

theorem Reflects.evaluateEntry {w : Window} {outcomes : List Outcome} (h : Reflects w outcomes) :
    Reflects w.evaluateEntry (outcomes ++ [evaluateTraced w.entry]) := by
  rw [Reflects, lastValue?_concat, List.getLast?_concat]
  unfold Window.evaluateEntry
  cases evaluateTraced w.entry with
  | ok result => exact ⟨rfl, rfl, rfl, rfl⟩
  | error refusal => exact ⟨h.1, rfl, rfl⟩

end Reckoner.Window
