import Reckoner.Proofs.Expr.Misfit
import Reckoner.Proofs.FrontEnds
import Reckoner.Proofs.Token.Seams
import Reckoner.Proofs.Window.History

/-!
# The column of a malformed entry

The window shows the place of a refusal as a column that starts at one. It counts bytes of the text
that is read, so it is the rank of the character only if each character before the place has one
byte. All lexemes are ASCII; the characters that shift the column are blanks of two or three bytes.
-/
namespace Reckoner

namespace Text

theorem length_le_byteLength (cs : List Char) : cs.length ≤ byteLength cs := by
  induction cs with
  | nil => exact Nat.le_refl 0
  | cons c cs ih =>
    have := c.utf8Size_pos
    rw [List.length_cons, byteLength_cons]
    omega

theorem byteLength_eq_length_iff {cs : List Char} :
    byteLength cs = cs.length ↔ ∀ c ∈ cs, c.utf8Size = 1 := by
  induction cs with
  | nil => simp
  | cons c cs ih =>
    have := c.utf8Size_pos
    have := length_le_byteLength cs
    rw [byteLength_cons, List.length_cons, List.forall_mem_cons, ← ih]
    omega

end Text

namespace Lexicon

open Text (isBlank)

/-- The characters of a lexeme have one byte each. -/
theorem Spells.utf8Size_of_mem {chars : List Char} {l : Lexeme} (h : Spells chars l) {c : Char}
    (hc : c ∈ chars) : c.utf8Size = 1 := by
  have hmarks : ∀ d ∈ marks, d.toNat ≤ 127 := by simp [marks]
  suffices hlow : c.toNat ≤ 127 from Char.utf8Size_eq_one_iff.mpr hlow
  rcases h.mem_cases hc with (hstart | hdigit) | hmark | ⟨-, hmark⟩ | ⟨rfl, -⟩
  · have := toNat_of_nameStart hstart
    omega
  · have := toNat_of_digit hdigit
    omega
  · have hsubset : ['.', '+', '-'] ⊆ marks := by decide
    exact hmarks c (hsubset hmark)
  · exact hmarks c hmark
  · decide

/-- Only blanks have more than one byte, as far as a text is cut. -/
theorem Cut.utf8Size_of_not_isBlank {position : Nat} {cs rest : List Char} {pieces : List Piece}
    (h : Cut position cs pieces rest) :
    ∃ done, cs = done ++ rest ∧ ∀ c ∈ done, isBlank c = false → c.utf8Size = 1 := by
  induction h with
  | stop => exact ⟨[], rfl, by simp⟩
  | @blank position c cs pieces rest hc _ ih =>
    obtain ⟨done, rfl, hdone⟩ := ih
    refine ⟨c :: done, rfl, List.forall_mem_cons.mpr ⟨fun hfalse => ?_, hdone⟩⟩
    rw [hc] at hfalse
    cases hfalse
  | lexeme hlongest _ ih =>
    obtain ⟨done, rfl, hdone⟩ := ih
    refine ⟨_, hlongest.eq_append.trans (List.append_assoc _ _ _).symm, fun c hc hblank => ?_⟩
    rcases List.mem_append.mp hc with hc | hc
    · exact hlongest.spells.utf8Size_of_mem hc
    · exact hdone c hc hblank

end Lexicon

/-- Before the place of a refusal only blanks have more than one byte. -/
theorem BreaksBehind.utf8Size_of_not_isBlank {before after : List Char}
    (h : BreaksBehind before after) {c : Char} (hc : c ∈ before)
    (hblank : Text.isBlank c = false) : c.utf8Size = 1 := by
  cases hscan : Token.scan (before ++ after) with
  | error refusal =>
    obtain ⟨pieces, hcut, -⟩ := h.noLexeme refusal hscan
    obtain ⟨done, hdone, hsize⟩ := hcut.utf8Size_of_not_isBlank
    obtain rfl := List.append_cancel_right hdone
    exact hsize c hc hblank
  | ok tokens =>
    obtain ⟨pieces, hcut, -⟩ := Token.exists_cut_of_scan hscan
    obtain ⟨done, hdone, hsize⟩ := hcut.utf8Size_of_not_isBlank
    rw [List.append_nil] at hdone
    exact hsize c (hdone ▸ List.mem_append_left after hc) hblank

/-- A character that starts no lexeme is a place where a text stops being an expression. -/
theorem Token.exists_breaksBehind_of_scan {cs : List Char} {position : Nat}
    (h : scan cs = .error (.malformed position)) :
    ∃ before after, cs = before ++ after ∧ Text.byteLength before = position ∧
      BreaksBehind before after := by
  obtain ⟨pieces, before, c, after, rfl, hcut, hstuck, hposition⟩ := exists_stuck_of_scan h
  cases hposition
  exact ⟨before, c :: after, rfl, rfl, .of_stuck hcut hstuck⟩

namespace Window

theorem head?_column (n : Nat) :
    (s!"syntaxe invalide (près du caractère {n})").toList.head? = some 's' := by
  show ("syntaxe invalide (près du caractère " ++ n.repr ++ ")").toList.head? = _
  simp

/-- The messages of other refusals start with another letter. -/
theorem head?_refusalMessage {refusal : Refusal} (h : ∀ position, refusal ≠ .malformed position) :
    (refusalMessage refusal).toList.head? ≠ some 's' := by
  cases refusal with
  | malformed position => exact absurd rfl (h position)
  | empty =>
    show "expression vide".toList.head? ≠ _
    simp
  | unknownName name =>
    show ("nom non autorisé : " ++ name).toList.head? ≠ _
    simp
  | unknownFunction name =>
    show ("fonction non autorisée : " ++ name).toList.head? ≠ _
    simp
  | forbidden construct =>
    show ("élément non autorisé : " ++ construct).toList.head? ≠ _
    simp
  | invalidOperation detail =>
    show ("opération invalide : " ++ detail).toList.head? ≠ _
    simp
  | tooNested limit =>
    show ("expression trop imbriquée (limite : " ++ limit.repr ++ ")").toList.head? ≠ _
    simp

/-- Only a malformed text is refused with a column, and the column is one more than the byte. -/
theorem refusalMessage_eq_column_iff {refusal : Refusal} {n : Nat} :
    refusalMessage refusal = s!"syntaxe invalide (près du caractère {n})" ↔
      ∃ position, refusal = .malformed position ∧ n = position + 1 := by
  have hcolumn : ∀ n : Nat, s!"syntaxe invalide (près du caractère {n})" =
      "syntaxe invalide (près du caractère " ++ n.repr ++ ")" := fun _ => rfl
  have hmessage : ∀ position, refusalMessage (.malformed position) =
      s!"syntaxe invalide (près du caractère {position + 1})" := fun _ => rfl
  constructor
  · intro h
    by_cases hmalformed : ∃ position, refusal = .malformed position
    · obtain ⟨position, rfl⟩ := hmalformed
      rw [hmessage, hcolumn, hcolumn, String.append_left_inj, String.append_right_inj] at h
      have hdigits := congrArg String.toList h
      rw [Nat.toList_repr, Nat.toList_repr] at hdigits
      exact ⟨position, rfl, (Decimal.digitChars_injective hdigits).symm⟩
    · have hhead := head?_refusalMessage (not_exists.mp hmalformed)
      rw [h] at hhead
      exact absurd (head?_column n) hhead
  · rintro ⟨position, rfl, rfl⟩
    exact hmessage position

theorem refusal_evaluateEntry (w : Window) :
    w.evaluateEntry.refusal =
      match evaluate w.entry with
      | .ok _ => ""
      | .error refusal => refusalMessage refusal := by
  rw [← evaluateTraced_map_fst, evaluateEntry]
  cases evaluateTraced w.entry <;> rfl

theorem refusal_step_of_evaluates {w : Window} {e : Event} (h : w.evaluates e = true) :
    (w.step e).refusal =
      match evaluate w.entry with
      | .ok _ => ""
      | .error refusal => refusalMessage refusal := by
  cases e with
  | press button =>
    cases button with
    | equals => exact refusal_evaluateEntry w.draw
    | _ => cases h
  | enter =>
    have hfocused : w.focused = true := h
    rw [step, if_pos hfocused]
    exact refusal_evaluateEntry w
  | _ => cases h

/-- What a text that is refused as malformed shows is the place where it stops being an expression,
in bytes and counted from one. It is the rank of a character exactly if no blank of several bytes
stands before the place; otherwise it is too large. -/
theorem refused_column_counts_bytes {w : Window} {event : Event} {n : Nat}
    (hevent : w.evaluates event = true)
    (hshown : (w.step event).refusal = s!"syntaxe invalide (près du caractère {n})") :
    ∃ before after, normalized w.entry = before ++ after ∧ BreaksBehind before after ∧
      n = Text.byteLength before + 1 ∧ before.length + 1 ≤ n ∧
      (n = before.length + 1 ↔ ∀ c ∈ before, Text.isBlank c = true → c.utf8Size = 1) := by
  rw [refusal_step_of_evaluates hevent] at hshown
  cases h : evaluate w.entry with
  | ok value =>
    rw [h] at hshown
    have hhead := head?_column n
    rw [← hshown] at hhead
    cases hhead
  | error refusal =>
    rw [h] at hshown
    obtain ⟨position, rfl, rfl⟩ := refusalMessage_eq_column_iff.mp hshown
    obtain ⟨before, after, htext, rfl, hbreaks⟩ : ∃ before after,
        normalized w.entry = before ++ after ∧ Text.byteLength before = position ∧
          BreaksBehind before after := by
      rcases evaluate_eq_malformed h with hscan | ⟨tokens, hscan, hexpr⟩
      · exact Token.exists_breaksBehind_of_scan hscan
      · exact (Expr.misfit_of_malformed hexpr).exists_breaksBehind hscan
    refine ⟨before, after, htext, hbreaks, rfl, ?_, ?_⟩
    · exact Nat.succ_le_succ (Text.length_le_byteLength before)
    · rw [Nat.add_right_cancel_iff, Text.byteLength_eq_length_iff]
      refine ⟨fun hall c hc _ => hall c hc, fun hblanks c hc => ?_⟩
      cases hblank : Text.isBlank c with
      | true => exact hblanks c hc hblank
      | false => exact hbreaks.utf8Size_of_not_isBlank hc hblank

/-- Behind a blank of three bytes the column is two more than the rank. -/
theorem refused_column_counts_bytes_behind_blank :
    (run [.assign "e\u2003)"]).evaluates .enter = true ∧
      ((run [.assign "e\u2003)"]).step .enter).refusal =
        "syntaxe invalide (près du caractère 5)" ∧
      ∃ before after, normalized (run [.assign "e\u2003)"]).entry = before ++ after ∧
        BreaksBehind before after ∧ 5 = Text.byteLength before + 1 ∧ before.length + 1 ≤ 5 ∧
        (5 = before.length + 1 ↔ ∀ c ∈ before, Text.isBlank c = true → c.utf8Size = 1) := by
  have hevent : (run [.assign "e\u2003)"]).evaluates .enter = true := rfl
  have hrefused : evaluate (run [.assign "e\u2003)"]).entry = .error (.malformed 4) := by
    decide +kernel
  have hshown : ((run [.assign "e\u2003)"]).step .enter).refusal =
      "syntaxe invalide (près du caractère 5)" := by
    rw [refusal_step_of_evaluates hevent, hrefused]
    rfl
  exact ⟨hevent, hshown, refused_column_counts_bytes hevent hshown⟩

/-- A column that no character has: behind a blank of two bytes the end of a text of three
characters is shown as the fifth. -/
theorem column_beyond_characters :
    (run [.assign "e\u00a0+", .press .equals]).refusal =
        "syntaxe invalide (près du caractère 5)" ∧
      (run [.assign "e\u00a0+"]).entry = "e\u00a0+" ∧
      ∀ before after, normalized "e\u00a0+" = before ++ after → 5 ≠ before.length + 1 := by
  have hrefused : evaluate (run [.assign "e\u00a0+"]).entry = .error (.malformed 4) := by
    decide +kernel
  have hlength : (normalized "e\u00a0+").length = 3 := by decide
  refine ⟨?_, rfl, fun before after hsplit => ?_⟩
  · have hrun : run [.assign "e\u00a0+", .press .equals] =
        (run [.assign "e\u00a0+"]).step (.press .equals) := rfl
    rw [hrun, refusal_step_of_evaluates rfl, hrefused]
    rfl
  · rw [hsplit, List.length_append] at hlength
    omega

end Window

end Reckoner
