import Reckoner.Evaluation
import Reckoner.Proofs.Results

/-!
# What an evaluation reads

An expression is read as tokens and a tree of the text without the blanks at its ends and with every
caret replaced. A text is refused when it has no characters, no tokens or no tree, or when the tree
has no value.
-/
namespace Reckoner

/-- The text that is cut into tokens. -/
def normalized (text : String) : List Char := expandCarets (Text.trim text.toList)

theorem read_eq (text : String) :
    read text =
      if Text.trim text.toList = [] then .error .empty
      else (Token.scan (normalized text)).bind fun tokens =>
        (Expr.ofTokens tokens (Text.byteLength (normalized text))).bind fun expr =>
          .ok ⟨tokens, expr⟩ := by
  unfold read normalized
  split
  · next h => rw [if_pos h]
  · next h => rw [if_neg h]; rfl

theorem evaluate_eq (text : String) :
    evaluate text = (read text).bind fun reading => reading.expr.evaluate := rfl

theorem evaluateTraced_eq (text : String) :
    evaluateTraced text = (read text).bind fun reading =>
      reading.expr.evaluate.bind fun value => .ok (value, reading.trace) := rfl

/-- A text is refused by its reading or by its tree. -/
theorem evaluate_eq_error {text : String} {refusal : Refusal}
    (h : evaluate text = .error refusal) :
    read text = .error refusal ∨
      ∃ reading, read text = .ok reading ∧ reading.expr.evaluate = .error refusal := by
  rw [evaluate_eq] at h
  cases hread : read text with
  | error refusal' =>
    rw [hread] at h
    cases h
    exact .inl rfl
  | ok reading =>
    rw [hread] at h
    exact .inr ⟨reading, rfl, h⟩

theorem read_eq_ok {text : String} {reading : Reading} (h : read text = .ok reading) :
    Token.scan (normalized text) = .ok reading.tokens ∧
      Expr.ofTokens reading.tokens (Text.byteLength (normalized text)) = .ok reading.expr := by
  rw [read_eq] at h
  split at h
  · cases h
  · obtain ⟨tokens, hscan, h⟩ := Except.bind_eq_ok.mp h
    obtain ⟨expr, hexpr, h⟩ := Except.bind_eq_ok.mp h
    cases h
    exact ⟨hscan, hexpr⟩

theorem read_eq_error {text : String} {refusal : Refusal} (h : read text = .error refusal) :
    refusal = .empty ∨ Token.scan (normalized text) = .error refusal ∨
      ∃ tokens, Token.scan (normalized text) = .ok tokens ∧
        Expr.ofTokens tokens (Text.byteLength (normalized text)) = .error refusal := by
  rw [read_eq] at h
  split at h
  · cases h
    exact .inl rfl
  cases hscan : Token.scan (normalized text) with
  | error refusal' =>
    rw [hscan] at h
    cases h
    exact .inr (.inl rfl)
  | ok tokens =>
    refine .inr (.inr ⟨tokens, rfl, ?_⟩)
    cases hexpr : Expr.ofTokens tokens (Text.byteLength (normalized text)) with
    | error refusal' =>
      rw [hscan, Except.bind, hexpr] at h
      cases h
      rfl
    | ok expr =>
      rw [hscan, Except.bind, hexpr] at h
      cases h

end Reckoner
