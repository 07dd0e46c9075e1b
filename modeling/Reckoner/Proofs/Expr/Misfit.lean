import Reckoner.Proofs.Evaluation
import Reckoner.Proofs.Expr.Completeness
import Reckoner.Proofs.Expr.Faults
import Reckoner.Proofs.Expr.Verdict
import Reckoner.Proofs.Token.Scan

/-!
# Where a text stops being an expression

Lexemes can be completed if some lexemes after them make them a sentence. Tokens that the parser
refuses as malformed are refused at the first one that cannot be added to those before it, or at the
end if all of them can be completed and are no sentence. For if the tokens up to a refusal could be
completed with the refused one, the parser would refuse a sentence.

So the position in a refusal is exact: it is that place, or the first character that starts no
lexeme, in bytes of the text that is read.
-/
namespace Reckoner

namespace Grammar

def IsSentence (ls : List Lexeme) : Prop :=
  ∃ ps t, Sentence ps t ∧ ps.map Placed.lexeme = ls

/-- Some lexemes after these make them a sentence. -/
def Completable (ls : List Lexeme) : Prop := Begins IsSentence ls

end Grammar

namespace Expr

open Grammar

/-- A sentence is not malformed. -/
theorem not_isSentence_of_malformed {tokens : List Token} {finish position : Nat}
    (h : ofTokens tokens finish = .error (.malformed position)) :
    ¬ IsSentence (tokens.map Token.lexeme) := by
  rintro ⟨ps, t, hsentence, hps⟩
  rw [ofTokens_of_sentence finish hsentence hps] at h
  split at h <;> cases h

/-- If all tokens that go on alike after `done` are malformed, they cannot be completed, whatever
the positions of the tokens that would complete them. -/
theorem not_completable {done : List Token} {lexeme : Lexeme} {finish : Nat}
    (h : ∀ rest, peek rest = some lexeme →
      ∃ position, ofTokens (done ++ rest) finish = .error (.malformed position)) :
    ¬ Completable (done.map Token.lexeme ++ [lexeme]) := by
  rintro ⟨more, hsentence⟩
  obtain ⟨position, hmalformed⟩ := h (⟨lexeme, 0⟩ :: more.map (⟨·, 0⟩)) rfl
  refine not_isSentence_of_malformed hmalformed ?_
  simpa [Function.comp_def] using hsentence

/-- The refusals of the parser. -/
theorem ofTokens_eq_error {tokens : List Token} {finish : Nat} {refusal : Refusal}
    (h : ofTokens tokens finish = .error refusal) :
    refusal = .tooNested nestingLimit ∨
      ∃ done rest, tokens = done ++ rest ∧ refusal = .malformed (positionOf finish rest) ∧
        Completable (done.map Token.lexeme) ∧
        ∀ rest', peek rest' = peek rest →
          ∃ position, ofTokens (done ++ rest') finish = .error (.malformed position) := by
  have hverdict := (settles_withRoom finish nestingLimit 1).1 tokens
  rw [ofTokens_eq] at h
  cases hverdict with
  | tooNested hread =>
    rw [hread] at h
    cases h
    exact .inl rfl
  | malformed done rest htokens hbegins hread =>
    subst htokens
    rw [hread rest rfl] at h
    cases h
    refine .inr ⟨done, rest, rfl, rfl, hbegins, fun rest' hrest' => ?_⟩
    rw [ofTokens_eq, hread rest' hrest']
    exact ⟨_, rfl⟩
  | ok done rest value htokens hphrase hread =>
    subst htokens
    rw [hread rest rfl] at h
    cases rest with
    | nil => cases h
    | cons token following =>
      cases h
      refine .inr ⟨done, token :: following, rfl, rfl, ⟨[], ?_⟩, fun rest' hrest' => ?_⟩
      · rw [List.append_nil]
        exact hphrase
      obtain ⟨position, others, rfl⟩ := exists_of_peek_eq hrest'
      rw [ofTokens_eq, hread _ hrest']
      exact ⟨_, rfl⟩

end Expr

/-- The place where some tokens stop being the beginning of a sentence: the first token that cannot
be added to those before it, or the end of the text if all of them can be completed and are no
sentence. -/
inductive Grammar.Misfit (finish : Nat) (tokens : List Token) : Nat → Prop where
  | token (done : List Token) (token : Token) (rest : List Token)
      (htokens : tokens = done ++ token :: rest)
      (hcompletable : Completable (done.map Token.lexeme))
      (hmisfit : ¬ Completable (done.map Token.lexeme ++ [token.lexeme])) :
      Misfit finish tokens token.position
  | finish (hcompletable : Completable (tokens.map Token.lexeme))
      (hsentence : ¬ IsSentence (tokens.map Token.lexeme)) : Misfit finish tokens finish

theorem Expr.misfit_of_malformed {tokens : List Token} {finish position : Nat}
    (h : ofTokens tokens finish = .error (.malformed position)) :
    Grammar.Misfit finish tokens position := by
  rcases ofTokens_eq_error h with h' | ⟨done, rest, rfl, h', hcompletable, hothers⟩
  · cases h'
  · cases h'
    cases rest with
    | nil =>
      have hsentence := not_isSentence_of_malformed h
      rw [List.append_nil] at hsentence ⊢
      exact .finish hcompletable hsentence
    | cons token rest => exact .token done token rest rfl hcompletable (not_completable hothers)

namespace Grammar

theorem Completable.of_append {ls rs : List Lexeme} (h : Completable (ls ++ rs)) :
    Completable ls := by
  obtain ⟨more, hmore⟩ := h
  exact ⟨rs ++ more, by rwa [← List.append_assoc]⟩

/-- No beginning that can be completed goes on behind a token that does not fit: it would begin with
what is before this token and with the token itself, and what begins a sentence can be completed. -/
theorem Completable.length_le {done done' rest rest' : List Token} {token : Token}
    (hdone : Completable (done.map Token.lexeme))
    (hmisfit : ¬ Completable (done'.map Token.lexeme ++ [token.lexeme]))
    (h : done ++ rest = done' ++ token :: rest') : done.length ≤ done'.length := by
  by_contra hlonger
  have hbefore : done' ++ [token] <+: done ++ rest := ⟨rest', by simp [h]⟩
  obtain ⟨more, rfl⟩ := List.prefix_of_prefix_length_le hbefore ⟨rest, rfl⟩
    (by simpa [Nat.add_one_le_iff] using hlonger)
  rw [List.map_append] at hdone
  exact hmisfit (by simpa using hdone.of_append)

theorem Misfit.unique {finish : Nat} {tokens : List Token} {position position' : Nat}
    (h : Misfit finish tokens position) (h' : Misfit finish tokens position') :
    position = position' := by
  cases h with
  | token done token rest htokens hcompletable hmisfit =>
    subst htokens
    cases h' with
    | token done' token' rest' htokens' hcompletable' hmisfit' =>
      have hlength := Nat.le_antisymm (hcompletable.length_le hmisfit' htokens')
        (hcompletable'.length_le hmisfit htokens'.symm)
      obtain ⟨-, htail⟩ := List.append_inj htokens' hlength
      cases htail
      rfl
    | finish hcompletable' _ =>
      exact absurd (hcompletable'.length_le hmisfit (List.append_nil _)) (by simp)
  | finish hcompletable _ =>
    cases h' with
    | token done token rest htokens _ hmisfit =>
      subst htokens
      exact absurd (hcompletable.length_le hmisfit (List.append_nil _)) (by simp)
    | finish => rfl

end Grammar

open Lexicon (Cut Piece Starts Stuck)

namespace Expr

/-- A tree is refused for what it holds, never for where it stands. -/
theorem evaluate_ne_malformed (t : Expr) (position : Nat) :
    t.evaluate ≠ .error (.malformed position) := by
  intro h
  have hfirst := (evaluate_eq_error_iff t _).mp h
  obtain ⟨check, -, hcheck⟩ := List.exists_of_findSome?_eq_some hfirst
  rcases Check.kind_of_refusal? hcheck with ⟨_, h⟩ | ⟨_, h⟩ | ⟨_, h⟩ <;> cases h

end Expr

theorem evaluate_eq_malformed {s : String} {position : Nat}
    (h : evaluate s = .error (.malformed position)) :
    Token.scan (normalized s) = .error (.malformed position) ∨
      ∃ tokens, Token.scan (normalized s) = .ok tokens ∧
        Expr.ofTokens tokens (Text.byteLength (normalized s)) = .error (.malformed position) := by
  rcases evaluate_eq_error h with hread | ⟨reading, -, hvalue⟩
  · rcases read_eq_error hread with hempty | hrefused
    · cases hempty
    · exact hrefused
  · exact absurd hvalue (reading.expr.evaluate_ne_malformed position)

/-- A token stands at a character that is not blank. -/
theorem Token.exists_before_of_scan {cs : List Char} {tokens : List Token} {token : Token}
    (h : Token.scan cs = .ok tokens) (htoken : token ∈ tokens) :
    ∃ before c after, cs = before ++ c :: after ∧ Text.byteLength before = token.position ∧
      Text.isBlank c = false := by
  obtain ⟨pieces, hcut, rfl⟩ := Token.exists_cut_of_scan h
  obtain ⟨piece, hpiece, rfl⟩ := List.mem_map.mp htoken
  obtain ⟨done, rfl, hspans⟩ := hcut.spans
  obtain ⟨before, after, rfl, hposition⟩ := hspans.place piece hpiece
  obtain ⟨c, following, hchars, hc⟩ := (hcut.spells piece hpiece).exists_not_isBlank
  refine ⟨before, c, following ++ after, by simp [hchars], ?_, hc⟩
  rw [hposition, Nat.zero_add]

/-- A text stops being an expression behind `before`: at a character that starts no lexeme, or if
there is none at the only place where its tokens stop being the beginning of a sentence. -/
structure BreaksBehind (before after : List Char) : Prop where
  notBlank : ∀ c rest, after = c :: rest → Text.isBlank c = false
  noLexeme : ∀ refusal, Token.scan (before ++ after) = .error refusal →
    ∃ pieces, Cut 0 (before ++ after) pieces after ∧ after ≠ [] ∧ ¬ Starts after
  misfit : ∀ tokens, Token.scan (before ++ after) = .ok tokens → ∀ place,
    Grammar.Misfit (Text.byteLength (before ++ after)) tokens place ↔
      place = Text.byteLength before

theorem BreaksBehind.of_stuck {before after : List Char} {c : Char} {pieces : List Piece}
    (hcut : Cut 0 (before ++ c :: after) pieces (c :: after)) (hstuck : Stuck (c :: after)) :
    BreaksBehind before (c :: after) where
  notBlank := by
    rintro _ _ ⟨⟩
    exact hstuck.1
  noLexeme _ _ := ⟨pieces, hcut, nofun, hstuck.2⟩
  misfit tokens h := by
    rw [Token.scan, hcut.scanFrom_eq_error hstuck] at h
    cases h

theorem BreaksBehind.of_misfit {before after : List Char} {tokens : List Token}
    (hscan : Token.scan (before ++ after) = .ok tokens)
    (hmisfit : Grammar.Misfit (Text.byteLength (before ++ after)) tokens (Text.byteLength before))
    (hafter : ∀ c rest, after = c :: rest → Text.isBlank c = false) :
    BreaksBehind before after where
  notBlank := hafter
  noLexeme refusal h := by
    rw [hscan] at h
    cases h
  misfit tokens' h place := by
    rw [hscan] at h
    cases h
    exact ⟨fun hplace => hplace.unique hmisfit, fun hplace => hplace ▸ hmisfit⟩

/-- A misfit is a place in the text. -/
theorem Grammar.Misfit.exists_breaksBehind {cs : List Char} {tokens : List Token} {position : Nat}
    (hscan : Token.scan cs = .ok tokens)
    (h : Grammar.Misfit (Text.byteLength cs) tokens position) :
    ∃ before after, cs = before ++ after ∧ Text.byteLength before = position ∧
      BreaksBehind before after := by
  have hmisfit := h
  cases h with
  | token done token rest htokens =>
    obtain ⟨before, c, after, rfl, hposition, hc⟩ :=
      Token.exists_before_of_scan hscan (htokens ▸ List.mem_append_right _ List.mem_cons_self)
    refine ⟨before, c :: after, rfl, hposition, .of_misfit hscan (hposition ▸ hmisfit) ?_⟩
    rintro _ _ ⟨⟩
    exact hc
  | finish =>
    refine ⟨cs, [], (List.append_nil cs).symm, rfl, ?_⟩
    rw [← List.append_nil cs] at hscan
    refine .of_misfit hscan ?_ nofun
    rwa [List.append_nil]

/-- The position in a refusal is exact: it is the place, in bytes of the text that is read, where
the text stops being an expression, and never a blank. -/
theorem evaluate_malformed_at_misfit (s : String) (position : Nat)
    (h : evaluate s = .error (.malformed position)) :
    ∃ before after, normalized s = before ++ after ∧ Text.byteLength before = position ∧
      BreaksBehind before after := by
  rcases evaluate_eq_malformed h with hscan | ⟨tokens, hscan, hexpr⟩
  · obtain ⟨pieces, done, c, after, hs, hcut, hstuck, hposition⟩ :=
      Token.exists_stuck_of_scan hscan
    rw [hs] at hcut ⊢
    cases hposition
    exact ⟨done, c :: after, rfl, rfl, .of_stuck hcut hstuck⟩
  · exact (Expr.misfit_of_malformed hexpr).exists_breaksBehind hscan

/-- The second name between the parentheses does not fit, behind a caret that is read as two
characters and a blank of three bytes. -/
theorem evaluate_malformed_inside_parentheses :
    evaluate "e ^\u2003(pi e)" = .error (.malformed 11) ∧
      ∃ before after, normalized "e ^\u2003(pi e)" = before ++ after ∧
        Text.byteLength before = 11 ∧ BreaksBehind before after := by
  have h : evaluate "e ^\u2003(pi e)" = .error (.malformed 11) := by decide +kernel
  exact ⟨h, evaluate_malformed_at_misfit _ _ h⟩

end Reckoner
