import Reckoner.Proofs.Json.Scaling
import Reckoner.Proofs.Token.Numbers

/-!
# Numbers in JSON

What a number is in JSON, as a relation of its own: digits without a needless zero in front, a point
with at least one digit after it, and an exponent. The reader takes the number, and only the number,
where nothing follows that could go on with it.
-/
namespace Reckoner.Json

open Binary64
open Lexicon (Digit Ends Exponent GoesOn)

/-- The digits of a whole number: no zero stands in front of others. -/
structure Whole (ds : List Char) : Prop where
  digit : ∀ c ∈ ds, Digit c
  ne_nil : ds ≠ []
  leading : ds.head? = some '0' → ds.length = 1

theorem Whole.head?_append {ds : List Char} (h : Whole ds) (rest : List Char) :
    ¬ (ds.length = 0 ∨ ((ds ++ rest).head? = some '0' ∧ 1 < ds.length)) := by
  rw [List.head?_append_of_ne_nil _ h.ne_nil, List.length_eq_zero_iff]
  rintro (hnil | ⟨hzero, hlong⟩)
  · exact h.ne_nil hnil
  · rw [h.leading hzero] at hlong
    exact lt_irrefl _ hlong

section Unsigned

variable (negative : Bool) {ds e rest : List Char} {n : Int} (hds : Whole ds)
  (hends : Ends GoesOn rest)
include hds hends

end Unsigned

end Reckoner.Json
