import Reckoner.Proofs.Decimal.Displayed
import Reckoner.Proofs.Expr.Numerals
import Reckoner.Proofs.FrontEnds

/-!
# The displayed value entered again

The displayed text is a number, so it is an expression for the number nearest to it. This number is
at least as close to what is displayed as the one that was displayed, and so it is displayed the
same.
-/
namespace Reckoner

open Binary64
open Decimal (Canonical RoundsTo fixed)

/-- A canonical text is an expression for the number nearest to it. -/
theorem evaluate_canonical (c : Canonical) :
    evaluate c.text =
      .ok (if c.negative then -nearest c.magnitude.value else nearest c.magnitude.value) := by
  rw [Canonical.text, Canonical.chars_eq]
  exact evaluate_of_number c.negative c.number_body

theorem abs_value (x : Float) : |value x| = magnitude x := by
  rw [value]
  split
  · rw [abs_neg, abs_of_nonneg (Decimal.magnitude_nonneg x)]
  · rw [abs_of_nonneg (Decimal.magnitude_nonneg x)]

/-- There is room for any rounding between the greatest number and infinity. -/
theorem magnitude_add_two_le {x : Float} (h : x.isFinite = true) :
    magnitude x + 2 ≤ magnitudeAt infinityOrdinal := by
  have hle : ordinal x ≤ infinityOrdinal - 1 := Nat.le_pred_of_lt ((isFinite_iff x).mp h)
  have hgap : magnitudeAt (infinityOrdinal - 1) + 2 ≤ magnitudeAt infinityOrdinal := by
    decide +kernel
  have := magnitudeAt_le_magnitudeAt_iff.mpr hle
  rw [magnitude]
  linarith

/-- A rounded number is not too great for a finite one. -/
theorem nearestOrdinal_lt_of_roundsTo {places : Nat} {x : Float} {q : Rat} (h : x.isFinite = true)
    (hround : RoundsTo places (value x) q) : nearestOrdinal |q| < infinityOrdinal := by
  have hnear : |(|q|) - magnitudeAt (ordinal x)| ≤ 1 / 2 := by
    have hdist := (abs_abs_sub_abs_le q (value x)).trans hround.near
    rwa [abs_value] at hdist
  have hroom := magnitude_add_two_le h
  have hhigh := (abs_le.mp hnear).2
  rw [magnitude] at hroom
  exact nearestOrdinal_lt (n := ordinal x) (by linarith)

/-- A canonical text that some number is displayed as is an expression for a number that is nearest
to it. -/
theorem exists_evaluate_of_roundsTo {places : Nat} {x : Float} {c : Canonical}
    (h : x.isFinite = true) (hround : RoundsTo places (value x) c.value) :
    ∃ y, evaluate c.text = .ok y ∧ IsNearest c.value y := by
  have hlt := nearestOrdinal_lt_of_roundsTo h hround
  rw [c.abs_value] at hlt
  have hnearest := isNearest_nearest c.magnitude_nonneg hlt
  refine ⟨_, evaluate_canonical c, ?_⟩
  rw [Canonical.value]
  split
  · exact hnearest.neg
  · exact hnearest

/-- The displayed value is a fixed point: its text is an expression for a finite number that is
displayed the same, also in the window. -/
theorem displayed_value_is_fixed_point {x : Float} (h : x.isFinite = true) (places : Nat) :
    ∃ y : Float, evaluate (fixed places x) = .ok y ∧ y.isFinite = true ∧
      fixed places y = fixed places x ∧
      ∀ w : Window, w.entry = fixed places x → w.decimals = places →
        (w.step (.press .equals)).value = fixed places x ∧
        (w.step (.press .equals)).refusal = "" := by
  obtain ⟨c, htext, hround, -⟩ := Decimal.exists_canonical places h
  obtain ⟨y, hy, hnearest⟩ := exists_evaluate_of_roundsTo h hround
  have hsame : fixed places y = fixed places x := by
    obtain ⟨d, htext', hround', -⟩ := Decimal.exists_canonical places hnearest.finite
    have hvalue := (hround.of_closer (hnearest.closest x h)).unique hround'
    rw [htext, htext', Canonical.value_injective hvalue]
  rw [← htext] at hy
  refine ⟨y, hy, hnearest.finite, hsame, fun w hentry hdecimals => ?_⟩
  obtain ⟨trace, -, hstep⟩ := Window.step_equals_of_value hentry hy
  rw [hstep]
  exact ⟨by rw [hdecimals, hsame], rfl⟩

/-- Half of the last place, displayed as an even digit. -/
theorem displayed_value_is_fixed_point_at_half :
    (0.25 : Float).isFinite = true ∧ fixed 1 0.25 = "0.2" ∧
      ∃ y : Float, evaluate "0.2" = .ok y ∧ y.isFinite = true ∧ fixed 1 y = "0.2" := by
  have hfinite : (0.25 : Float).isFinite = true := by decide +kernel
  have htext : fixed 1 0.25 = "0.2" := by decide +kernel
  obtain ⟨y, hy, hyfinite, hsame, -⟩ := displayed_value_is_fixed_point hfinite 1
  exact ⟨hfinite, htext, y, htext ▸ hy, hyfinite, hsame.trans htext⟩

end Reckoner
