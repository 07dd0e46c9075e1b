import Mathlib.Data.List.DropRight
import Reckoner.Proofs.Evaluation
import Reckoner.Proofs.Expr.Completeness
import Reckoner.Proofs.Token.Seams

/-!
# The tree of a text

A text has a tree exactly if the lexemes of the text with its carets replaced are a sentence within
the limits, and the tree is that of the sentence. Neither the blanks at its ends nor the places of
its lexemes matter. A sentence outside the limits is refused as too nested.
-/
namespace Reckoner

open Grammar (Placed Sentence Fits)
open Lexicon (Lexemes)

/-- The tree of a text. -/
def Expr.ofText (text : String) : Except Refusal Expr := (read text).map Reading.expr

theorem evaluate_eq_ofText (text : String) :
    evaluate text = (Expr.ofText text).bind Expr.evaluate := by
  rw [evaluate_eq, Expr.ofText]
  cases read text <;> rfl

@[simp] theorem expandCarets_nil : expandCarets [] = [] := rfl

@[simp] theorem expandCarets_append (cs ds : List Char) :
    expandCarets (cs ++ ds) = expandCarets cs ++ expandCarets ds := List.flatMap_append

theorem expandCarets_caret (cs : List Char) :
    expandCarets ('^' :: cs) = '*' :: '*' :: expandCarets cs := rfl

theorem expandCarets_cons_of_ne {c : Char} (h : c ≠ '^') (cs : List Char) :
    expandCarets (c :: cs) = c :: expandCarets cs := by
  rw [expandCarets, List.flatMap_cons, if_neg h]
  rfl

theorem expandCarets_of_not_mem {cs : List Char} (h : '^' ∉ cs) : expandCarets cs = cs := by
  induction cs with
  | nil => rfl
  | cons c cs ih =>
    rw [List.mem_cons, not_or] at h
    rw [expandCarets_cons_of_ne (Ne.symm h.1), ih h.2]

theorem exists_blanks_around_trim (cs : List Char) :
    ∃ before after, cs = before ++ Text.trim cs ++ after ∧
      (∀ c ∈ before, Text.isBlank c = true) ∧ ∀ c ∈ after, Text.isBlank c = true := by
  refine ⟨cs.takeWhile Text.isBlank, (cs.dropWhile Text.isBlank).rtakeWhile Text.isBlank, ?_,
    fun c hc => List.mem_takeWhile_imp hc, fun c hc => List.mem_rtakeWhile_imp hc⟩
  have htrim : Text.trim cs = (cs.dropWhile Text.isBlank).rdropWhile Text.isBlank := rfl
  rw [htrim, List.append_assoc, List.rdropWhile_append_rtakeWhile, List.takeWhile_append_dropWhile]

theorem expandCarets_of_blanks {bs : List Char} (h : ∀ c ∈ bs, Text.isBlank c = true) :
    expandCarets bs = bs :=
  expandCarets_of_not_mem fun hcaret => absurd (h '^' hcaret) (by decide)

/-- The blanks at the ends of a text do not change its lexemes. -/
theorem lexemes_normalized_iff (text : String) {ls : List Lexeme} :
    Lexemes (normalized text) ls ↔ Lexemes (expandCarets text.toList) ls := by
  obtain ⟨before, after, htext, hbefore, hafter⟩ := exists_blanks_around_trim text.toList
  conv_rhs => rw [htext]
  rw [expandCarets_append, expandCarets_append, expandCarets_of_blanks hbefore,
    expandCarets_of_blanks hafter, Lexicon.lexemes_append_blanks_iff hafter,
    Lexicon.lexemes_blanks_append_iff hbefore]
  rfl

namespace Expr

variable {text : String} {ps : List Placed} {t : Expr}

/-- A text whose lexemes are a sentence is read with the tokens of these lexemes, if the sentence
is within the limits. -/
theorem exists_tokens_of_lexemes (hls : Lexemes (expandCarets text.toList) (ps.map Placed.lexeme))
    (h : Sentence ps t) :
    ∃ tokens, tokens.map Token.lexeme = ps.map Placed.lexeme ∧
      read text =
        if Fits ps t then .ok ⟨tokens, t⟩ else .error (.tooNested nestingLimit) := by
  obtain ⟨tokens, hscan, htokens⟩ :=
    Lexicon.lexemes_iff_scan.mp ((lexemes_normalized_iff text).mpr hls)
  have htrim : Text.trim text.toList ≠ [] := by
    intro hnil
    rw [normalized, hnil, expandCarets_nil, Token.scan, Lexicon.scanFrom_nil] at hscan
    cases hscan
    obtain ⟨p, qs, rfl, -⟩ := h.exists_head
    cases htokens
  refine ⟨tokens, htokens, ?_⟩
  rw [read_eq, if_neg htrim, hscan]
  show (ofTokens tokens _).bind _ = _
  rw [ofTokens_of_sentence _ h htokens.symm]
  split <;> rfl

/-- A text whose lexemes are a sentence has the tree of the sentence, if it is within the limits. -/
theorem ofText_of_lexemes (hls : Lexemes (expandCarets text.toList) (ps.map Placed.lexeme))
    (h : Sentence ps t) :
    ofText text = if Fits ps t then .ok t else .error (.tooNested nestingLimit) := by
  obtain ⟨tokens, -, hread⟩ := exists_tokens_of_lexemes hls h
  rw [ofText, hread]
  split <;> rfl

/-- The lexemes of a text that has a tree are a sentence for that tree, within the limits. -/
theorem exists_sentence_of_ofText (h : ofText text = .ok t) :
    ∃ ps, Lexemes (expandCarets text.toList) (ps.map Placed.lexeme) ∧ Sentence ps t ∧
      Fits ps t := by
  obtain ⟨⟨tokens, expr⟩, hread, rfl⟩ : ∃ reading, read text = .ok reading ∧ reading.expr = t := by
    rw [ofText] at h
    cases hread : read text with
    | error refusal => simp [hread, Except.map] at h
    | ok reading =>
      rw [hread] at h
      cases h
      exact ⟨reading, rfl, rfl⟩
  obtain ⟨hscan, hexpr⟩ := read_eq_ok hread
  obtain ⟨ps, hsentence, hps, hfits⟩ := sentence_of_ofTokens hexpr
  refine ⟨ps, ?_, hsentence, hfits⟩
  exact (lexemes_normalized_iff text).mp (Lexicon.lexemes_iff_scan.mpr ⟨tokens, hscan, hps.symm⟩)

/-- Two texts of the same lexemes have the same tree, if one of them has any. -/
theorem ofText_eq_ok_congr {text' : String}
    (h : ∀ ls, Lexemes (expandCarets text.toList) ls → Lexemes (expandCarets text'.toList) ls)
    (ht : ofText text = .ok t) : ofText text' = .ok t := by
  obtain ⟨ps, hls, hsentence, hfits⟩ := exists_sentence_of_ofText ht
  rw [ofText_of_lexemes (h _ hls) hsentence, if_pos hfits]

end Expr

end Reckoner
