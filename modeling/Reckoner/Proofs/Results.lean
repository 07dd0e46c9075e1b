import Reckoner.Refusal

/-!
# Results that may be refusals

What a chain of computations gives, and what it is refused for.
-/
namespace Reckoner

theorem Except.bind_eq_ok {ε α β : Type} {first : Except ε α} {next : α → Except ε β} {b : β} :
    first.bind next = .ok b ↔ ∃ a, first = .ok a ∧ next a = .ok b := by
  cases first with
  | error e => simp [Except.bind]
  | ok a => simp [Except.bind]

theorem Except.bind_eq_error {ε α β : Type} {first : Except ε α} {next : α → Except ε β} {e : ε} :
    first.bind next = .error e ↔
      first = .error e ∨ ∃ a, first = .ok a ∧ next a = .error e := by
  cases first with
  | error other => simp [Except.bind]
  | ok a => simp [Except.bind]

theorem Except.mapError_bind {ε ε' α β : Type} (g : ε → ε') (first : Except ε α)
    (next : α → Except ε β) :
    (first.bind next).mapError g = (first.mapError g).bind fun a => (next a).mapError g := by
  cases first <;> rfl

/-- The refusal of a result, if it is one. -/
def refusal? {α : Type} : Except Refusal α → Option Refusal
  | .error refusal => some refusal
  | .ok _ => none

theorem refusal?_eq_some_iff {α : Type} {result : Except Refusal α} {refusal : Refusal} :
    refusal? result = some refusal ↔ result = .error refusal := by
  cases result with
  | error other => simp [refusal?]
  | ok value => simp [refusal?]

theorem refusal?_eq_none_iff {α : Type} {result : Except Refusal α} :
    refusal? result = none ↔ ∃ value, result = .ok value := by
  cases result with
  | error other => simp [refusal?]
  | ok value => simp [refusal?]

end Reckoner
