import Reckoner.Proofs.Token.Longest

/-!
# The cut of a text

A text is cut into blanks and longest lexemes, from left to right. The tokens of a text are the
lexemes of its cut with their places, and a text is refused at the first place where the cut cannot
go on. The pieces of a cut lie apart in the text, in order, with nothing but blanks outside them.
-/
namespace Reckoner
namespace Lexicon

open Text (isBlank byteLength)

/-- A token together with the characters it was taken from. -/
structure Piece where
  token : Token
  chars : List Char

/-- The byte after the last one of a piece. -/
def Piece.finish (piece : Piece) : Nat := piece.token.position + byteLength piece.chars

/-- `Cut position cs pieces rest`: from the byte `position` on, the text `cs` is cut into these
pieces and blanks, and `rest` is left. -/
inductive Cut : Nat → List Char → List Piece → List Char → Prop where
  | stop {position cs} : Cut position cs [] cs
  | blank {position c cs pieces rest} (hc : isBlank c = true)
      (h : Cut (position + c.utf8Size) cs pieces rest) : Cut position (c :: cs) pieces rest
  | lexeme {position cs chars lexeme following pieces rest}
      (hlongest : Longest cs chars lexeme following)
      (h : Cut (position + byteLength chars) following pieces rest) :
      Cut position cs (⟨⟨lexeme, position⟩, chars⟩ :: pieces) rest

theorem not_isBlank_of_lt {c : Char} (hlow : 0x20 < c.toNat) (hhigh : c.toNat < 0x85) :
    isBlank c = false := by
  simp [isBlank, Text.blankRanges]
  omega

theorem toNat_of_digit {c : Char} (h : Digit c) : 0x30 ≤ c.toNat ∧ c.toNat ≤ 0x39 := h

theorem toNat_of_nameStart {c : Char} (h : NameStart c) : 0x41 ≤ c.toNat ∧ c.toNat ≤ 0x7A := by
  rcases h with ⟨hlow, hhigh⟩ | ⟨hlow, hhigh⟩ | rfl
  · have : (0x61 : Nat) ≤ c.toNat := hlow
    have : c.toNat ≤ 0x7A := hhigh
    omega
  · have : (0x41 : Nat) ≤ c.toNat := hlow
    have : c.toNat ≤ 0x5A := hhigh
    omega
  · decide

theorem Spells.exists_not_isBlank {chars : List Char} {lexeme : Lexeme} (h : Spells chars lexeme) :
    ∃ c following, chars = c :: following ∧ isBlank c = false := by
  cases h with
  | number h =>
    obtain ⟨c, following, rfl, hc | rfl⟩ := h.exists_head
    · have := toNat_of_digit hc
      exact ⟨c, following, rfl, not_isBlank_of_lt (by omega) (by omega)⟩
    · exact ⟨_, _, rfl, by decide⟩
  | name hc hcs =>
    have := toNat_of_nameStart hc
    exact ⟨_, _, rfl, not_isBlank_of_lt (by omega) (by omega)⟩
  | _ => exact ⟨_, _, rfl, by decide⟩

theorem scanFrom_nil (position : Nat) : Token.scanFrom position [] = .ok [] := by
  rw [Token.scanFrom]

theorem scanFrom_blank {c : Char} (hc : isBlank c = true) (position : Nat) (cs : List Char) :
    Token.scanFrom position (c :: cs) = Token.scanFrom (position + c.utf8Size) cs := by
  rw [Token.scanFrom, if_pos hc]

theorem scanFrom_lexeme {c : Char} (hc : isBlank c = false) {cs : List Char} {head : Lexeme.Head}
    (h : Lexeme.head? (c :: cs) = some head) (position : Nat) :
    Token.scanFrom position (c :: cs) =
      (Token.scanFrom (position + byteLength head.chars) head.rest).map
        (⟨head.lexeme, position⟩ :: ·) := by
  rw [Token.scanFrom, if_neg (by simp [hc])]
  split
  · next hnone =>
    rw [h] at hnone
    cases hnone
  · next hsome =>
    rw [h] at hsome
    cases hsome
    cases Token.scanFrom (position + byteLength head.chars) head.rest <;> rfl

theorem scanFrom_refused {c : Char} (hc : isBlank c = false) {cs : List Char}
    (h : Lexeme.head? (c :: cs) = none) (position : Nat) :
    Token.scanFrom position (c :: cs) = .error (.malformed position) := by
  rw [Token.scanFrom, if_neg (by simp [hc])]
  split
  · rfl
  · next hsome =>
    rw [h] at hsome
    cases hsome

/-- The text is read through the pieces of a cut, and then what is left. -/
theorem Cut.scanFrom_eq {position : Nat} {cs rest : List Char} {pieces : List Piece}
    (h : Cut position cs pieces rest) :
    ∃ done, cs = done ++ rest ∧
      Token.scanFrom position cs =
        (Token.scanFrom (position + byteLength done) rest).map
          (pieces.map Piece.token ++ ·) := by
  induction h with
  | @stop position cs =>
    refine ⟨[], rfl, ?_⟩
    show _ = (Token.scanFrom position cs).map id
    cases Token.scanFrom position cs <;> rfl
  | @blank position c cs pieces rest hc h ih =>
    obtain ⟨done, rfl, ih⟩ := ih
    refine ⟨c :: done, rfl, ?_⟩
    rw [scanFrom_blank hc, ih, Text.byteLength_cons, Nat.add_assoc]
  | @lexeme position cs chars lexeme following pieces rest hlongest h ih =>
    obtain ⟨done, rfl, ih⟩ := ih
    have hhead := hlongest.head?_eq
    obtain ⟨c, tail, hchars, hc⟩ := hlongest.spells.exists_not_isBlank
    have hcs : cs = c :: (tail ++ (done ++ rest)) := by
      rw [hlongest.eq_append, hchars, List.cons_append]
    refine ⟨chars ++ done, hlongest.eq_append.trans (List.append_assoc _ _ _).symm, ?_⟩
    rw [hcs] at hhead ⊢
    rw [scanFrom_lexeme hc hhead, ih, Text.byteLength_append, Nat.add_assoc]
    cases Token.scanFrom (position + (byteLength chars + byteLength done)) rest <;> rfl

/-- Where no cut goes on: at the end, and at a character that is not blank and starts no lexeme. -/
def Stuck : List Char → Prop
  | [] => True
  | c :: cs => isBlank c = false ∧ ¬ Starts (c :: cs)

/-- Every text is cut as far as a cut goes. -/
theorem exists_cut (cs : List Char) (position : Nat) :
    ∃ pieces rest, Cut position cs pieces rest ∧ Stuck rest := by
  induction hn : cs.length using Nat.strongRecOn generalizing position cs with
  | ind n ih =>
    cases cs with
    | nil => exact ⟨[], [], .stop, trivial⟩
    | cons c cs =>
      cases hc : isBlank c with
      | true =>
        obtain ⟨pieces, rest, hcut, hstuck⟩ := ih cs.length (by simp [← hn]) cs _ rfl
        exact ⟨pieces, rest, .blank hc hcut, hstuck⟩
      | false =>
        cases hhead : Lexeme.head? (c :: cs) with
        | none => exact ⟨[], c :: cs, .stop, hc, (head?_eq_none_iff _).mp hhead⟩
        | some head =>
          have hlength := Lexeme.length_rest_lt hhead
          obtain ⟨pieces, rest, hcut, hstuck⟩ := ih head.rest.length (by omega) head.rest _ rfl
          exact ⟨_, rest, .lexeme (longest_of_head? hhead) hcut, hstuck⟩

/-- A cut of a whole text gives its tokens. -/
theorem Cut.scanFrom_eq_ok {position : Nat} {cs : List Char} {pieces : List Piece}
    (h : Cut position cs pieces []) :
    Token.scanFrom position cs = .ok (pieces.map Piece.token) := by
  obtain ⟨done, rfl, hscan⟩ := h.scanFrom_eq
  rw [hscan, scanFrom_nil]
  exact congrArg Except.ok (List.append_nil _)

/-- A cut that cannot go on gives the place of the refusal. -/
theorem Cut.scanFrom_eq_error {position : Nat} {done after : List Char} {c : Char}
    {pieces : List Piece} (h : Cut position (done ++ c :: after) pieces (c :: after))
    (hstuck : Stuck (c :: after)) :
    Token.scanFrom position (done ++ c :: after) =
      .error (.malformed (position + byteLength done)) := by
  obtain ⟨done', hdone, hscan⟩ := h.scanFrom_eq
  obtain rfl := List.append_cancel_right hdone
  rw [hscan, scanFrom_refused hstuck.1 ((head?_eq_none_iff _).mpr hstuck.2)]
  rfl

/-- Either the whole text is cut, or it is refused where its cut cannot go on. -/
theorem exists_cut_or_refused (cs : List Char) (position : Nat) :
    (∃ pieces, Cut position cs pieces []) ∨
    ∃ pieces done c after, Cut position cs pieces (c :: after) ∧ cs = done ++ c :: after ∧
      Stuck (c :: after) := by
  obtain ⟨pieces, rest, hcut, hstuck⟩ := exists_cut cs position
  obtain ⟨done, hcs, -⟩ := hcut.scanFrom_eq
  cases rest with
  | nil => exact .inl ⟨pieces, hcut⟩
  | cons c after => exact .inr ⟨pieces, done, c, after, hcut, hcs, hstuck⟩

/-- The pieces of a text that starts at the byte `position`. -/
structure Spans (position : Nat) (text : List Char) (pieces : List Piece) : Prop where
  /-- a piece is where its token says -/
  place : ∀ p ∈ pieces, ∃ before after, text = before ++ p.chars ++ after ∧
    p.token.position = position + byteLength before
  /-- pieces are in order and do not overlap -/
  apart : pieces.Pairwise fun p q => p.finish ≤ q.token.position
  /-- what is in no piece is blank -/
  outside : ∀ before c after, text = before ++ c :: after → isBlank c = true ∨
    ∃ p ∈ pieces, p.token.position ≤ position + byteLength before ∧
      position + byteLength before < p.finish

theorem Spans.blank {position : Nat} {c : Char} {text : List Char} {pieces : List Piece}
    (hc : isBlank c = true) (h : Spans (position + c.utf8Size) text pieces) :
    Spans position (c :: text) pieces := by
  refine ⟨fun p hp => ?_, h.apart, fun before d after htext => ?_⟩
  · obtain ⟨before, after, rfl, hposition⟩ := h.place p hp
    refine ⟨c :: before, after, rfl, ?_⟩
    rw [hposition, Text.byteLength_cons, Nat.add_assoc]
  · cases before with
    | nil =>
      cases htext
      exact .inl hc
    | cons b before =>
      cases htext
      rw [Text.byteLength_cons, ← Nat.add_assoc]
      exact h.outside before d after rfl

theorem Spans.piece {position : Nat} {chars : List Char} (lexeme : Lexeme) {text : List Char}
    {pieces : List Piece} (h : Spans (position + byteLength chars) text pieces) :
    Spans position (chars ++ text) (⟨⟨lexeme, position⟩, chars⟩ :: pieces) := by
  refine ⟨fun p hp => ?_, List.pairwise_cons.mpr ⟨fun p hp => ?_, h.apart⟩,
    fun before d after htext => ?_⟩
  · rcases List.mem_cons.mp hp with rfl | hp
    · exact ⟨[], text, rfl, rfl⟩
    · obtain ⟨before, after, rfl, hposition⟩ := h.place p hp
      refine ⟨chars ++ before, after, by simp only [List.append_assoc], ?_⟩
      rw [hposition, Text.byteLength_append, Nat.add_assoc]
  · obtain ⟨before, after, -, hposition⟩ := h.place p hp
    rw [hposition]
    exact Nat.le_add_right _ _
  · rcases List.append_eq_append_iff.mp htext with ⟨others, rfl, htail⟩ | ⟨others, rfl, htail⟩
    · rcases h.outside others d after htail with hd | ⟨p, hp, hlow, hhigh⟩
      · exact .inl hd
      · refine .inr ⟨p, List.mem_cons_of_mem _ hp, ?_⟩
        rw [Text.byteLength_append, ← Nat.add_assoc]
        exact ⟨hlow, hhigh⟩
    · cases others with
      | nil =>
        rcases h.outside [] d after htail.symm with hd | ⟨p, hp, hlow, hhigh⟩
        · exact .inl hd
        · refine .inr ⟨p, List.mem_cons_of_mem _ hp, ?_⟩
          rw [List.append_nil] at hlow hhigh
          exact ⟨hlow, hhigh⟩
      | cons c others =>
        cases htail
        refine .inr ⟨_, List.mem_cons_self, Nat.le_add_right _ _, ?_⟩
        have := Char.utf8Size_pos d
        simp only [Piece.finish, Text.byteLength_append, Text.byteLength_cons]
        omega

theorem Cut.spans {position : Nat} {cs rest : List Char} {pieces : List Piece}
    (h : Cut position cs pieces rest) : ∃ done, cs = done ++ rest ∧ Spans position done pieces := by
  induction h with
  | stop => exact ⟨[], rfl, by simp, .nil, by simp⟩
  | blank hc h ih =>
    obtain ⟨done, rfl, hspans⟩ := ih
    exact ⟨_, rfl, hspans.blank hc⟩
  | lexeme hlongest h ih =>
    obtain ⟨done, rfl, hspans⟩ := ih
    exact ⟨_, hlongest.eq_append.trans (List.append_assoc _ _ _).symm, hspans.piece _⟩

theorem Cut.spells {position : Nat} {cs rest : List Char} {pieces : List Piece}
    (h : Cut position cs pieces rest) : ∀ p ∈ pieces, Spells p.chars p.token.lexeme := by
  induction h with
  | stop => simp
  | blank _ _ ih => exact ih
  | lexeme hlongest _ ih =>
    intro p hp
    rcases List.mem_cons.mp hp with rfl | hp
    · exact hlongest.spells
    · exact ih p hp

/-- A cut leaves tokens at ever greater places. -/
theorem Cut.pairwise_position {position : Nat} {cs rest : List Char} {pieces : List Piece}
    (h : Cut position cs pieces rest) :
    (pieces.map Piece.token).Pairwise fun a b => a.position < b.position := by
  obtain ⟨done, -, hspans⟩ := h.spans
  refine List.pairwise_map.mpr (hspans.apart.imp_of_mem fun {p q} hp _ hpq => ?_)
  obtain ⟨c, tail, hchars, -⟩ := (h.spells p hp).exists_not_isBlank
  have := Char.utf8Size_pos c
  simp only [Piece.finish, hchars, Text.byteLength_cons] at hpq
  omega

/-- The text of a number is read as the number nearest to it. -/
theorem readFloat?_of_number {cs : List Char} {d : Decimal} (h : Number cs d) :
    Literal.readFloat? cs = some (Binary64.nearest d.value) := by
  obtain ⟨l, hread, -, hvalue⟩ := read?_of_number h (ends_nil GoesOn)
  obtain ⟨c, following, rfl, hc⟩ := h.exists_head
  rw [List.append_nil] at hread
  have hsign : c ≠ '-' ∧ c ≠ '+' ∧ c ≠ 'i' ∧ c ≠ 'N' := by
    rcases hc with hc | rfl
    · refine ⟨?_, ?_, ?_, ?_⟩ <;> rintro rfl <;> exact absurd hc (by decide)
    · decide
  obtain ⟨hminus, hplus, hi, hN⟩ := hsign
  have hfloat : l.toFloat = Binary64.nearest d.value := by
    rw [← hvalue]
    exact Decimal.toFloat_eq_nearest l.toDecimal
  unfold Literal.readFloat?
  split
  next negative magnitude hmagnitude =>
  split at hmagnitude
  · next heq => exact absurd (List.cons.inj heq).1 hminus
  · next heq => exact absurd (List.cons.inj heq).1 hplus
  · cases hmagnitude
    simp [hread, hfloat, hi, hN]

end Lexicon

theorem Token.exists_cut_of_scan {cs : List Char} {tokens : List Token}
    (h : Token.scan cs = .ok tokens) :
    ∃ pieces, Lexicon.Cut 0 cs pieces [] ∧ pieces.map Lexicon.Piece.token = tokens := by
  rcases Lexicon.exists_cut_or_refused cs 0 with
    ⟨pieces, hcut⟩ | ⟨pieces, done, c, after, hcut, rfl, hstuck⟩
  · rw [Token.scan, hcut.scanFrom_eq_ok] at h
    cases h
    exact ⟨pieces, hcut, rfl⟩
  · rw [Token.scan, hcut.scanFrom_eq_error hstuck] at h
    cases h

theorem Token.exists_stuck_of_scan {cs : List Char} {refusal : Refusal}
    (h : Token.scan cs = .error refusal) :
    ∃ pieces done c after, cs = done ++ c :: after ∧ Lexicon.Cut 0 cs pieces (c :: after) ∧
      Lexicon.Stuck (c :: after) ∧ refusal = .malformed (Text.byteLength done) := by
  rcases Lexicon.exists_cut_or_refused cs 0 with
    ⟨pieces, hcut⟩ | ⟨pieces, done, c, after, hcut, rfl, hstuck⟩
  · rw [Token.scan, hcut.scanFrom_eq_ok] at h
    cases h
  · rw [Token.scan, hcut.scanFrom_eq_error hstuck, Nat.zero_add] at h
    cases h
    exact ⟨pieces, done, c, after, rfl, hcut, hstuck, rfl⟩

/-- A text has tokens exactly if it is cut into blanks and longest lexemes, and these are its
tokens. They lie in the text in order, apart, and with nothing but blanks outside them, and each
number is what its characters are read as. Any other text is refused at the first character, after
the lexemes that were read, that is not blank and starts no lexeme. -/
theorem Token.scan_cuts_longest_lexemes (s : List Char) :
    (∀ tokens, Token.scan s = .ok tokens ↔
      ∃ pieces, Lexicon.Cut 0 s pieces [] ∧ pieces.map Lexicon.Piece.token = tokens) ∧
    (∀ pieces, Lexicon.Cut 0 s pieces [] →
      Lexicon.Spans 0 s pieces ∧
      (pieces.map Lexicon.Piece.token).Pairwise (fun a b => a.position < b.position) ∧
      ∀ p ∈ pieces, ∀ v, p.token.lexeme = .number v →
        Literal.readFloat? p.chars = some v ∧ v.isNaN = false ∧ Binary64.isNegative v = false) ∧
    (∀ refusal, Token.scan s = .error refusal ↔
      ∃ pieces done c after, Lexicon.Cut 0 s pieces (c :: after) ∧ s = done ++ c :: after ∧
        Text.isBlank c = false ∧ ¬ Lexicon.Starts (c :: after) ∧
        refusal = .malformed (Text.byteLength done)) := by
  refine ⟨fun tokens => ⟨fun h => ?_, ?_⟩, fun pieces hcut => ?_, fun refusal => ⟨fun h => ?_, ?_⟩⟩
  · rcases Lexicon.exists_cut_or_refused s 0 with
      ⟨pieces, hcut⟩ | ⟨pieces, done, c, after, hcut, rfl, hstuck⟩
    · rw [Token.scan, hcut.scanFrom_eq_ok] at h
      cases h
      exact ⟨pieces, hcut, rfl⟩
    · rw [Token.scan, hcut.scanFrom_eq_error hstuck] at h
      cases h
  · rintro ⟨pieces, hcut, rfl⟩
    exact hcut.scanFrom_eq_ok
  · obtain ⟨done, rfl, hspans⟩ := hcut.spans
    rw [List.append_nil]
    refine ⟨hspans, hcut.pairwise_position, ?_⟩
    rintro ⟨⟨lexeme, position⟩, chars⟩ hp v rfl
    obtain ⟨hnumber⟩ := hcut.spells _ hp
    have hread := Lexicon.readFloat?_of_number hnumber
    rw [← Decimal.toFloat_eq_nearest] at hread ⊢
    exact ⟨hread, Decimal.isNaN_toFloat _, Decimal.isNegative_toFloat _⟩
  · rcases Lexicon.exists_cut_or_refused s 0 with
      ⟨pieces, hcut⟩ | ⟨pieces, done, c, after, hcut, rfl, hstuck⟩
    · rw [Token.scan, hcut.scanFrom_eq_ok] at h
      cases h
    · rw [Token.scan, hcut.scanFrom_eq_error hstuck, Nat.zero_add] at h
      cases h
      exact ⟨pieces, done, c, after, hcut, rfl, hstuck.1, hstuck.2, rfl⟩
  · rintro ⟨pieces, done, c, after, hcut, rfl, hc, hstarts, rfl⟩
    rw [Token.scan, hcut.scanFrom_eq_error ⟨hc, hstarts⟩, Nat.zero_add]

end Reckoner
