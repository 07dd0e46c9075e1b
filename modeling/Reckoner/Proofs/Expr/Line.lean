import Reckoner.Proofs.Decimal.ReadBack
import Reckoner.Proofs.Expr.Text

/-!
# Reading the token line

The token line shows each lexeme in a spelling of its own, with a blank between neighbours, so that
none of them merges with the next. It is cut into the same lexemes again, whether or not they are a
sentence, and an expression is read again from its token line.
-/
namespace Reckoner

open Lexicon (Lexemes Spells)

/-- No number among the tokens is too great. -/
def Token.FiniteNumbers (tokens : List Token) : Prop :=
  ∀ token ∈ tokens, ∀ value, token.lexeme = .number value → value.isFinite = true

namespace Lexicon

/-- A lexeme is spelled as it is shown, however it was spelled in the text. -/
theorem Spells.spells_chars {chars : List Char} {l : Lexeme} (h : Spells chars l)
    (hfinite : ∀ value, l = .number value → value.isFinite = true) : Spells l.chars l := by
  cases h with
  | number h => exact Decimal.spells_plain (hfinite _ rfl) (Binary64.isNegative_nearest _)
  | @name c cs hc hcs =>
    rw [Lexeme.chars, String.toList_ofList]
    exact .name hc hcs
  | plus => exact .plus
  | minus => exact .minus
  | star => exact .star
  | doubleStar => exact .doubleStar
  | slash => exact .slash
  | comma => exact .comma
  | leftParen => exact .leftParen
  | rightParen => exact .rightParen

theorem Lexemes.exists_spells {cs : List Char} {ls : List Lexeme} (h : Lexemes cs ls) :
    ∀ l ∈ ls, ∃ chars, Spells chars l := by
  induction h with
  | nil => simp
  | blank _ _ ih => exact ih
  | lexeme hlongest _ ih => exact List.forall_mem_cons.mpr ⟨⟨_, hlongest.spells⟩, ih⟩

theorem Spells.caret_not_mem {chars : List Char} {l : Lexeme} (h : Spells chars l) :
    '^' ∉ chars := by
  intro hmem
  rcases h.mem_cases hmem with hname | hmark | ⟨-, hmark⟩ | ⟨hstar, -⟩
  · exact absurd hname (by decide)
  · exact absurd hmark (by decide)
  · exact absurd hmark (by decide)
  · exact absurd hstar (by decide)

/-- A text that is cut into lexemes has no caret. -/
theorem Lexemes.caret_not_mem {cs : List Char} {ls : List Lexeme} (h : Lexemes cs ls) :
    '^' ∉ cs := by
  induction h with
  | nil => simp
  | blank hc _ ih =>
    refine List.not_mem_cons_of_ne_of_not_mem ?_ ih
    rintro rfl
    exact absurd hc (by decide)
  | lexeme hlongest _ ih =>
    rw [hlongest.eq_append]
    exact List.not_mem_append hlongest.spells.caret_not_mem ih

end Lexicon

namespace Token

theorem lineChars_eq (tokens : List Token) :
    lineChars tokens = [' '].intercalate ((tokens.map Token.lexeme).map Lexeme.chars) := by
  induction tokens with
  | nil => rfl
  | cons token rest ih =>
    cases rest with
    | nil => simp [lineChars, List.intercalate]
    | cons next rest =>
      rw [lineChars, ih]
      · simp [List.intercalate]
      · exact nofun

theorem line_congr {tokens tokens' : List Token}
    (h : tokens.map Token.lexeme = tokens'.map Token.lexeme) : line tokens = line tokens' := by
  rw [line, line, lineChars_eq, lineChars_eq, h]

theorem lexemes_lineChars {tokens : List Token}
    (h : ∀ token ∈ tokens, Spells token.lexeme.chars token.lexeme) :
    Lexemes (lineChars tokens) (tokens.map Token.lexeme) := by
  induction tokens with
  | nil => exact .nil
  | cons token rest ih =>
    rw [List.forall_mem_cons] at h
    cases rest with
    | nil => exact h.1.lexemes
    | cons next rest =>
      exact (Lexicon.lexemes_append_blank_iff Lexicon.isBlank_space).mpr
        ⟨[token.lexeme], _, rfl, h.1.lexemes, ih h.2⟩

/-- The lexemes of a text are those of its token line. -/
theorem lexemes_line {cs : List Char} {tokens : List Token}
    (h : Lexemes cs (tokens.map Token.lexeme)) (hfinite : FiniteNumbers tokens) :
    Lexemes (line tokens).toList (tokens.map Token.lexeme) := by
  rw [line, String.toList_ofList]
  refine lexemes_lineChars fun token htoken => ?_
  obtain ⟨chars, hspells⟩ := h.exists_spells _ (List.mem_map_of_mem htoken)
  exact hspells.spells_chars (hfinite token htoken)

/-- The token line is cut into the same lexemes, whether they are a sentence or not. -/
theorem scan_line_of_scan {cs : List Char} {tokens : List Token} (h : scan cs = .ok tokens)
    (hfinite : FiniteNumbers tokens) :
    ∃ tokens', scan (line tokens).toList = .ok tokens' ∧
      tokens'.map Token.lexeme = tokens.map Token.lexeme := by
  have hls := Lexicon.lexemes_iff_scan.mpr ⟨tokens, h, rfl⟩
  exact Lexicon.lexemes_iff_scan.mp (lexemes_line hls hfinite)

end Token

/-- What was read of an expression is read again from its token line, but for the places. -/
theorem read_line {text : String} {reading : Reading} (h : read text = .ok reading)
    (hfinite : Token.FiniteNumbers reading.tokens) :
    ∃ tokens', read (Token.line reading.tokens) = .ok ⟨tokens', reading.expr⟩ ∧
      tokens'.map Token.lexeme = reading.tokens.map Token.lexeme := by
  obtain ⟨hscan, hexpr⟩ := read_eq_ok h
  obtain ⟨ps, hsentence, hps, hfits⟩ := Expr.sentence_of_ofTokens hexpr
  have hline : Lexemes (expandCarets (Token.line reading.tokens).toList)
      (ps.map Grammar.Placed.lexeme) := by
    have hls := Token.lexemes_line (Lexicon.lexemes_iff_scan.mpr ⟨_, hscan, rfl⟩) hfinite
    rw [expandCarets_of_not_mem hls.caret_not_mem, hps]
    exact hls
  obtain ⟨tokens', htokens', hread⟩ := Expr.exists_tokens_of_lexemes hline hsentence
  rw [if_pos hfits] at hread
  exact ⟨tokens', hread, htokens'.trans hps⟩

/-- The token line can be read back. It is cut into the lexemes that it shows, and an expression
without numbers too great has the value, the tokens, the tree and the depth of its token line. -/
theorem line_reads_back (s : String) :
    (∀ tokens, Token.scan s.toList = .ok tokens → Token.FiniteNumbers tokens →
      ∃ tokens', Token.scan (Token.line tokens).toList = .ok tokens' ∧
        tokens'.map Token.lexeme = tokens.map Token.lexeme) ∧
    ∀ reading value trace, read s = .ok reading → Token.FiniteNumbers reading.tokens →
      evaluateTraced s = .ok (value, trace) →
      evaluateTraced trace.tokens = .ok (value, trace) := by
  refine ⟨fun tokens h hfinite => Token.scan_line_of_scan h hfinite, ?_⟩
  intro reading value trace hread hfinite htraced
  obtain ⟨tokens', hline, htokens'⟩ := read_line hread hfinite
  obtain ⟨reading', hread', hrest⟩ := Except.bind_eq_ok.mp htraced
  obtain rfl := Except.ok.inj (hread.symm.trans hread')
  obtain ⟨value', hvalue, htrace⟩ := Except.bind_eq_ok.mp hrest
  cases htrace
  have hsame : (Reading.mk tokens' reading.expr).trace = reading.trace := by
    rw [Reading.trace, Reading.trace, Token.line_congr htokens']
  show evaluateTraced (Token.line reading.tokens) = _
  rw [evaluateTraced_eq, hline]
  show (reading.expr.evaluate.bind fun value => _) = _
  rw [hvalue, hsame]
  rfl

/-- Stars that no expression has, and a difference with a number in another notation. -/
theorem line_reads_back_difference :
    (∃ tokens tokens', Token.scan "0** *e1".toList = .ok tokens ∧
      Token.scan (Token.line tokens).toList = .ok tokens' ∧
      tokens'.map Token.lexeme = tokens.map Token.lexeme) ∧
    ∃ value trace, evaluateTraced " .0e1-e" = .ok (value, trace) ∧
      evaluateTraced trace.tokens = .ok (value, trace) := by
  have hscan : Token.scan "0** *e1".toList =
      .ok [⟨.number 0, 0⟩, ⟨.doubleStar, 1⟩, ⟨.star, 4⟩, ⟨.name "e1", 5⟩] := by decide +kernel
  have hread : read " .0e1-e" = .ok ⟨[⟨.number 0, 0⟩, ⟨.minus, 4⟩, ⟨.name "e", 5⟩],
      .binary .sub (.number 0) (.name "e")⟩ := by with_unfolding_all rfl
  have hzero : (0 : Float).isFinite = true := by decide
  constructor
  · obtain ⟨tokens', hline, hsame⟩ := (line_reads_back _).1 _ hscan (by
      simpa [Token.FiniteNumbers] using hzero)
    exact ⟨_, tokens', hscan, hline, hsame⟩
  · have htraced : ∃ value trace, evaluateTraced " .0e1-e" = .ok (value, trace) := by
      rw [evaluateTraced_eq, hread]
      exact ⟨_, _, rfl⟩
    obtain ⟨value, trace, htraced⟩ := htraced
    refine ⟨value, trace, htraced, (line_reads_back _).2 _ _ _ hread ?_ htraced⟩
    simpa [Token.FiniteNumbers] using hzero

end Reckoner
