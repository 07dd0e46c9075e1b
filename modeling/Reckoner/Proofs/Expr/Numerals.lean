import Reckoner.Json.Printer
import Reckoner.Proofs.Binary64.Order
import Reckoner.Proofs.Expr.Line
import Reckoner.Proofs.Registry

/-!
# Numbers entered again

The text of a number is one lexeme, a minus sign apart, which is a lexeme of its own. So its value
is the number nearest to what it spells, negated after a sign, and every finite number has its text
in each notation as an expression for itself.
-/
namespace Reckoner

open Binary64
open Grammar (Derives Fits Placed Sentence)
open Lexicon (Apart Lexemes Number Spells)

namespace Lexicon

/-- A minus sign starts no other lexeme. -/
theorem Spells.eq_nil_of_minus {cs : List Char} {l : Lexeme} (h : Spells ('-' :: cs) l) :
    cs = [] := by
  obtain ⟨head, hhead, hlength⟩ := h.exists_head? []
  rw [List.append_nil] at hhead
  obtain rfl : ⟨.minus, ['-'], cs⟩ = head := Option.some.inj hhead
  exact List.length_eq_zero_iff.mp (Nat.le_zero.mp (Nat.le_of_succ_le_succ hlength))

theorem apart_minus (cs : List Char) : Apart ['-'] cs := by
  intro x y l hx hy hxs _ hspells
  obtain rfl : x = ['-'] := (List.suffix_cons_iff.mp hxs).resolve_right fun hnil =>
    hx (List.suffix_nil.mp hnil)
  exact hy hspells.eq_nil_of_minus

theorem Number.lexemes_minus {cs : List Char} {d : Decimal} (h : Number cs d) :
    Lexemes ('-' :: cs) [.minus, .number (nearest d.value)] :=
  (apart_minus cs).lexemes_append Spells.minus.lexemes (Spells.number h).lexemes

end Lexicon

/-- The value of a text is that of its lexemes. -/
theorem evaluate_of_lexemes {cs : List Char} {ps : List Placed} {t : Expr}
    (hls : Lexemes cs (ps.map Placed.lexeme)) (h : Sentence ps t) (hfits : Fits ps t) :
    evaluate (.ofList cs) = t.evaluate := by
  have htext : Lexemes (expandCarets (String.ofList cs).toList) (ps.map Placed.lexeme) := by
    rwa [String.toList_ofList, expandCarets_of_not_mem hls.caret_not_mem]
  rw [evaluate_eq_ofText, Expr.ofText_of_lexemes htext h, if_pos hfits]
  rfl

/-- The text of a number, with or without a sign, has this number as its value. -/
theorem evaluate_of_number (negative : Bool) {cs : List Char} {d : Decimal} (h : Number cs d) :
    evaluate (.ofList ((if negative then ['-'] else []) ++ cs)) =
      .ok (if negative then -nearest d.value else nearest d.value) := by
  have hatom : ∀ k, Derives .atom k [⟨.number (nearest d.value), k⟩] (.number (nearest d.value)) :=
    fun _ => .number _
  cases negative with
  | false =>
    have hsentence : Sentence _ _ := .ofTerm (.ofPower (.ofSigned (.ofAtom (hatom 1))))
    exact evaluate_of_lexemes (Spells.number h).lexemes hsentence
      ⟨by simp [nestingLimit], by simp [Expr.height, nestingLimit]⟩
  | true =>
    have hsentence : Sentence _ _ :=
      .ofTerm (.ofPower (.ofSigned (.sign .minus (.ofAtom (hatom 2)))))
    have hvalue := evaluate_of_lexemes h.lexemes_minus hsentence
      ⟨by simp [nestingLimit], by simp [Expr.height, nestingLimit]⟩
    rw [Expr.evaluate, Registry.sign?_eq] at hvalue
    exact hvalue

/-- A number is the one that its ordinal and its sign make. -/
theorem signed_nearest {x : Float} {r : Rat} (hx : x.isFinite = true)
    (h : nearestOrdinal r = ordinal x) :
    (if isNegative x then -nearest r else nearest r) = x := by
  have hnumber : (nearest r).isNaN = false := by
    refine isNaN_of_isFinite ?_
    rw [isFinite_iff, ordinal_nearest, h]
    exact (isFinite_iff x).mp hx
  cases hsign : isNegative x with
  | false =>
    exact ext_of_ordinal ((isNegative_nearest r).trans hsign.symm) ((ordinal_nearest r).trans h)
  | true =>
    refine ext_of_ordinal ?_ ?_
    · rw [if_pos rfl, isNegative_neg hnumber, isNegative_nearest, hsign]
      rfl
    · rw [if_pos rfl, ordinal_neg hnumber, ordinal_nearest, h]

/-- The text of a finite number in any layout has the number as its value. -/
theorem evaluate_layout (layout : Decimal.Layout) {x : Float} (h : x.isFinite = true) :
    evaluate (layout.render x) = .ok x := by
  obtain ⟨e, hnumber, hordinal⟩ := layout.exists_number ((isFinite_iff x).mp h)
  rw [Decimal.Layout.render, layout.chars_of_isFinite h, evaluate_of_number _ hnumber,
    signed_nearest h hordinal]

theorem Json.render_real {x : Float} (h : x.isFinite = true) :
    (Json.real x).render = Json.layout.render x := by
  rw [render, chars, realChars, if_pos h]
  rfl

/-- A finite number can be entered again without loss as it was printed: as a result, in the token
line, in the text of a tree, and in JSON. -/
theorem printed_number_evaluates {x : Float} (h : x.isFinite = true) :
    evaluate (Decimal.result.render x) = .ok x ∧
      (∀ position, evaluate (Token.line [⟨.number x, position⟩]) = .ok x) ∧
      evaluate (Expr.number x).render = .ok x ∧ evaluate (Json.real x).render = .ok x := by
  refine ⟨evaluate_layout _ h, fun position => ?_, ?_, ?_⟩
  · rw [Token.line, Token.lineChars, Lexeme.chars]
    exact evaluate_layout Decimal.plain h
  · rw [Expr.render, Expr.chars]
    exact evaluate_layout Decimal.plain h
  · rw [Json.render_real h]
    exact evaluate_layout _ h

/-- The negative zero, and the negative number that is closest to it. -/
theorem printed_number_evaluates_to_negative_zero :
    (ofOrdinal true 0).isFinite = true ∧ Decimal.result.render (ofOrdinal true 0) = "-0.0" ∧
      evaluate "-0.0" = .ok (ofOrdinal true 0) ∧ (ofOrdinal true 1).isFinite = true ∧
      evaluate (Expr.number (ofOrdinal true 1)).render = .ok (ofOrdinal true 1) := by
  have hzero : (ofOrdinal true 0).isFinite = true := by decide
  have hleast : (ofOrdinal true 1).isFinite = true := by decide
  have htext : Decimal.result.render (ofOrdinal true 0) = "-0.0" := by decide +kernel
  refine ⟨hzero, htext, ?_, hleast, (printed_number_evaluates hleast).2.2.1⟩
  rw [← htext]
  exact (printed_number_evaluates hzero).1

end Reckoner
