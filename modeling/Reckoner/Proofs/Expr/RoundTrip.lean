import Reckoner.Expr.Printer
import Reckoner.Proofs.Decimal.ReadBack
import Reckoner.Proofs.Expr.Completeness
import Reckoner.Proofs.Token.Scan

/-!
# Trees read back from their text

The text of a tree is cut into the lexemes that were printed, because what stands next to a lexeme
never goes on with it. These lexemes are a phrase of the grammar for the tree itself, whose nesting
grows by at most two with the height: a sign and an exponent stand in parentheses of their own and
open one more level. So a tree is read back unless its text is nested too deeply.
-/
namespace Reckoner

open Lexicon (Spells Ends Continues NameStart NamePart)
open Text (byteLength)

/-- A letter or an underscore, then letters, digits and underscores. -/
def IsName (cs : List Char) : Prop :=
  ∃ c following, cs = c :: following ∧ NameStart c ∧ ∀ d ∈ following, NamePart d

/-- A tree that an expression may denote: its numbers are finite and without a sign, and its names
are names. -/
inductive Expr.Printable : Expr → Prop where
  | number {value} (hfinite : value.isFinite = true) (hsign : Binary64.isNegative value = false) :
      Printable (.number value)
  | name {text} (h : IsName text.toList) : Printable (.name text)
  | signed {sign operand} (h : Printable operand) : Printable (.signed sign operand)
  | binary {operator left right} (hl : Printable left) (hr : Printable right) :
      Printable (.binary operator left right)
  | call {function arguments} (hname : IsName function.toList)
      (h : ∀ a ∈ arguments, Printable a) : Printable (.call function arguments)

namespace Expr

mutual

/-- The lexemes of the text of a tree. -/
def lexemes : Expr → List Lexeme
  | number value => [.number value]
  | name text => [.name text]
  | signed sign operand => .leftParen :: [sign.lexeme] ++ operand.lexemes ++ [.rightParen]
  | binary operator left right =>
    .leftParen :: left.lexemes ++ [operator.lexeme] ++ right.lexemes ++ [.rightParen]
  | call function arguments =>
    [.name function] ++ .leftParen :: listLexemes arguments ++ [.rightParen]

def listLexemes : List Expr → List Lexeme
  | [] => []
  | [last] => last.lexemes
  | first :: rest => first.lexemes ++ .comma :: listLexemes rest

end

end Expr

/-- What is read of a fragment does not depend on where it stands, as long as `rest` follows it. -/
def Scans (chars : List Char) (lexemes : List Lexeme) (rest : List Char) : Prop :=
  ∀ position, ∃ tokens, tokens.map Token.lexeme = lexemes ∧
    Token.scanFrom position (chars ++ rest) =
      (Token.scanFrom (position + byteLength chars) rest).map (tokens ++ ·)

section Scans

variable {chars chars' rest : List Char} {ls ls' : List Lexeme}

theorem Scans.append (h : Scans chars ls (chars' ++ rest)) (h' : Scans chars' ls' rest) :
    Scans (chars ++ chars') (ls ++ ls') rest := by
  intro position
  obtain ⟨tokens, hlexemes, hscan⟩ := h position
  obtain ⟨tokens', hlexemes', hscan'⟩ := h' (position + byteLength chars)
  refine ⟨tokens ++ tokens', by rw [List.map_append, hlexemes, hlexemes'], ?_⟩
  rw [List.append_assoc, hscan, hscan', Text.byteLength_append, Nat.add_assoc]
  cases Token.scanFrom (position + (byteLength chars + byteLength chars')) rest with
  | error refusal => rfl
  | ok later => exact congrArg Except.ok (List.append_assoc tokens tokens' later).symm

/-- A lexeme is read as it stands where nothing goes on with it. -/
theorem scans_of_spells {lexeme : Lexeme} (h : Spells chars lexeme)
    (hends : Ends (Continues lexeme) rest) : Scans chars [lexeme] rest := by
  intro position
  obtain ⟨c, following, rfl, hc⟩ := h.exists_not_isBlank
  refine ⟨[⟨lexeme, position⟩], rfl, ?_⟩
  have hhead := h.head?_eq hends
  rw [List.cons_append] at hhead ⊢
  rw [Lexicon.scanFrom_lexeme hc hhead]
  rfl

theorem scans_space (rest : List Char) : Scans [' '] [] rest := by
  intro position
  refine ⟨[], rfl, ?_⟩
  rw [List.singleton_append, Lexicon.scanFrom_blank (by decide)]
  show Token.scanFrom (position + byteLength [' ']) rest = _
  cases Token.scanFrom (position + byteLength [' ']) rest <;> rfl

end Scans

/-- The characters that stand next to a printed tree. -/
def Separator (c : Char) : Prop := c ∈ [' ', ')', ',', '(']

/-- A separator goes on with no lexeme. -/
theorem Continues.not_separator {lexeme : Lexeme} {c : Char} (h : Continues lexeme c) :
    ¬ Separator c := by
  have hdigit : Lexicon.Digit c → ¬ Separator c := fun hc hmem =>
    hc.not_mem (by simp [Separator] at hmem ⊢; tauto)
  have hstart : NameStart c → ¬ Separator c := fun hc hmem =>
    hc.not_mem (by simp [Separator] at hmem ⊢; tauto)
  cases lexeme with
  | number =>
    rcases h with h | rfl | rfl | rfl
    · exact hdigit h
    · simp [Separator]
    · simp [Separator]
    · simp [Separator]
  | name => exact h.elim hstart hdigit
  | star =>
    obtain rfl : c = '*' := h
    simp [Separator]
  | _ => exact h.elim

/-- Nothing follows that is not a separator. -/
def Separated (rest : List Char) : Prop := Ends (¬ Separator ·) rest

theorem separated_cons {c : Char} (hc : Separator c) (rest : List Char) :
    Separated (c :: rest) := by
  rintro d following ⟨⟩ hd
  exact hd hc

theorem Separated.ends {rest : List Char} (h : Separated rest) (lexeme : Lexeme) :
    Ends (Continues lexeme) rest :=
  fun c following hrest hc => h c following hrest (Continues.not_separator hc)

theorem IsName.spells {text : String} (h : IsName text.toList) :
    Spells text.toList (.name text) := by
  obtain ⟨c, following, htext, hc, hfollowing⟩ := h
  have hname := Spells.name hc hfollowing
  rw [← htext, String.ofList_toList] at hname
  exact hname

theorem Operator.spells (operator : Operator) :
    Spells operator.symbol.toList operator.lexeme := by
  cases operator with
  | add => exact .plus
  | sub => exact .minus
  | mul => exact .star
  | div => exact .slash
  | pow => exact .doubleStar

theorem Sign.scans (sign : Sign) (rest : List Char) :
    Scans sign.symbol.toList [sign.lexeme] rest := by
  cases sign with
  | plus => exact scans_of_spells .plus fun _ _ _ => id
  | minus => exact scans_of_spells .minus fun _ _ _ => id

theorem scans_leftParen (rest : List Char) : Scans ['('] [.leftParen] rest :=
  scans_of_spells .leftParen fun _ _ _ => id

theorem scans_rightParen (rest : List Char) : Scans [')'] [.rightParen] rest :=
  scans_of_spells .rightParen fun _ _ _ => id

theorem scans_comma (rest : List Char) : Scans [','] [.comma] rest :=
  scans_of_spells .comma fun _ _ _ => id

namespace Expr

theorem scans_listChars {arguments : List Expr}
    (h : ∀ a ∈ arguments, ∀ rest, Separated rest → Scans a.chars a.lexemes rest)
    (rest : List Char) (hrest : Separated rest) :
    Scans (listChars arguments) (listLexemes arguments) rest := by
  induction arguments with
  | nil =>
    intro position
    refine ⟨[], rfl, ?_⟩
    show Token.scanFrom position rest = (Token.scanFrom position rest).map id
    cases Token.scanFrom position rest <;> rfl
  | cons first others ih =>
    rw [List.forall_mem_cons] at h
    cases others with
    | nil => exact h.1 rest hrest
    | cons second others =>
      have hfirst := h.1 (',' :: ' ' :: listChars (second :: others) ++ rest)
        (separated_cons (by simp [Separator]) _)
      exact hfirst.append ((scans_comma _).append ((scans_space _).append (ih h.2)))

/-- A printed tree is cut into its lexemes wherever it stands. -/
theorem Printable.scans {t : Expr} (h : Printable t) :
    ∀ rest, Separated rest → Scans t.chars t.lexemes rest := by
  induction h with
  | number hfinite hsign =>
    intro rest hrest
    exact scans_of_spells (Decimal.spells_plain hfinite hsign) (hrest.ends _)
  | name h =>
    intro rest hrest
    exact scans_of_spells h.spells (hrest.ends _)
  | @signed sign operand h ih =>
    intro rest hrest
    have hoperand := ih ([')'] ++ rest) (separated_cons (by simp [Separator]) _)
    exact (((scans_leftParen _).append (sign.scans _)).append hoperand).append (scans_rightParen _)
  | @binary operator left right hl hr ihl ihr =>
    intro rest hrest
    have hright := ihr ([')'] ++ rest) (separated_cons (by simp [Separator]) _)
    have hoperator : Scans operator.symbol.toList [operator.lexeme]
        (' ' :: right.chars ++ ([')'] ++ rest)) :=
      scans_of_spells operator.spells ((separated_cons (by simp [Separator]) _).ends _)
    have hleft := ihl (' ' :: operator.symbol.toList ++ (' ' :: right.chars ++ ([')'] ++ rest)))
      (separated_cons (by simp [Separator]) _)
    exact ((((scans_leftParen _).append hleft).append ((scans_space _).append hoperator)).append
      ((scans_space _).append hright)).append (scans_rightParen _)
  | @call function arguments hname h ih =>
    intro rest hrest
    have harguments := scans_listChars ih ([')'] ++ rest)
      (separated_cons (by simp [Separator]) _)
    have hfunction : Scans function.toList [.name function]
        ('(' :: listChars arguments ++ ([')'] ++ rest)) :=
      scans_of_spells hname.spells ((separated_cons (by simp [Separator]) _).ends _)
    exact (hfunction.append ((scans_leftParen _).append harguments)).append (scans_rightParen _)

end Expr

open Grammar (Placed Derives nesting separated Symbol)

namespace Grammar

/-- An atom is a phrase of every kind. -/
theorem Derives.signed_of_atom {k : Nat} {ps : List Placed} {t : Expr} (h : Derives .atom k ps t) :
    Derives .signed k ps t := .ofAtom h

theorem Derives.power_of_atom {k : Nat} {ps : List Placed} {t : Expr} (h : Derives .atom k ps t) :
    Derives .power k ps t := .ofSigned (.ofAtom h)

theorem Derives.term_of_atom {k : Nat} {ps : List Placed} {t : Expr} (h : Derives .atom k ps t) :
    Derives .term k ps t := .ofPower (.ofSigned (.ofAtom h))

theorem Derives.expression_of_atom {k : Nat} {ps : List Placed} {t : Expr}
    (h : Derives .atom k ps t) : Derives .expression k ps t := .ofTerm h.term_of_atom

end Grammar

/-- The lexemes of a tree are an atom at every level, and its nesting is bounded by the height. -/
def Expr.ReadsAs (t : Expr) (k : Nat) (ps : List Placed) : Prop :=
  ps.map Placed.lexeme = t.lexemes ∧ Derives .atom k ps t ∧ nesting ps ≤ k + 2 * (t.height - 1)

namespace Expr

theorem one_le_height (t : Expr) : 1 ≤ t.height := by
  cases t <;> simp [height]

/-- Two operands around an operator, with the levels that the operator opens. -/
theorem derives_binary {l r : Expr} {k : Nat} (operator : Operator) {ls rs : List Placed}
    (hl : l.ReadsAs (k + 1) ls) (hr : r.ReadsAs (if operator = .pow then k + 2 else k + 1) rs) :
    Derives .expression (k + 1) (ls ++ ⟨operator.lexeme, k + 1⟩ :: rs) (.binary operator l r) := by
  obtain ⟨-, hl, -⟩ := hl
  obtain ⟨-, hr, -⟩ := hr
  cases operator with
  | add => exact .additive .add (.inl rfl) hl.expression_of_atom hr.term_of_atom
  | sub => exact .additive .sub (.inr rfl) hl.expression_of_atom hr.term_of_atom
  | mul => exact .ofTerm (.multiplicative .mul (.inl rfl) hl.term_of_atom hr.power_of_atom)
  | div => exact .ofTerm (.multiplicative .div (.inr rfl) hl.term_of_atom hr.power_of_atom)
  | pow => exact .ofTerm (.ofPower (.exponent hl.signed_of_atom hr.power_of_atom))

theorem listLexemes_cons (first : Expr) (others : List Expr) :
    listLexemes (first :: others) = first.lexemes ++ others.flatMap (.comma :: ·.lexemes) := by
  induction others generalizing first with
  | nil => rw [listLexemes, List.flatMap_nil, List.append_nil]
  | cons second others ih =>
    rw [listLexemes, ih, List.flatMap_cons, List.cons_append]
    exact fun h => nomatch h

/-- Arguments that are read one by one are read with commas between them. -/
theorem map_lexeme_separated (k : Nat) {arguments : List (List Placed × Expr)}
    (h : ∀ a ∈ arguments, a.1.map Placed.lexeme = a.2.lexemes) :
    (separated k (arguments.map Prod.fst)).map Placed.lexeme =
      listLexemes (arguments.map Prod.snd) := by
  cases arguments with
  | nil => rfl
  | cons a arguments =>
    rw [List.forall_mem_cons] at h
    rw [List.map_cons, List.map_cons, Grammar.separated_cons, listLexemes_cons, List.map_append,
      h.1, List.flatMap_map, List.flatMap_map, List.map_flatMap]
    refine congrArg (a.2.lexemes ++ ·) (List.flatMap_congr fun b hb => ?_)
    rw [List.map_cons, h.2 b hb]

/-- A witness for each member of a list. -/
theorem exists_map_snd {α β : Type} {p : α → β → Prop} {l : List α} (h : ∀ a ∈ l, ∃ b, p a b) :
    ∃ pairs : List (β × α), pairs.map Prod.snd = l ∧ ∀ x ∈ pairs, p x.2 x.1 := by
  induction l with
  | nil => exact ⟨[], rfl, by simp⟩
  | cons a l ih =>
    rw [List.forall_mem_cons] at h
    obtain ⟨b, hb⟩ := h.1
    obtain ⟨pairs, rfl, hpairs⟩ := ih h.2
    exact ⟨(b, a) :: pairs, rfl, by simpa using ⟨hb, fun b a => hpairs (b, a)⟩⟩

/-- Two operands around an operator, in parentheses. -/
theorem ReadsAs.binary {l r : Expr} {k : Nat} (operator : Operator) {ls rs : List Placed}
    (hl : l.ReadsAs (k + 1) ls) (hr : r.ReadsAs (if operator = .pow then k + 2 else k + 1) rs) :
    (Expr.binary operator l r).ReadsAs k
      (⟨.leftParen, k⟩ :: (ls ++ ⟨operator.lexeme, k + 1⟩ :: rs) ++ [⟨.rightParen, k⟩]) := by
  refine ⟨?_, .parenthesized (derives_binary operator hl hr), ?_⟩
  · simp [lexemes, hl.1, hr.1]
  · have hlnesting := hl.2.2
    have hrnesting := hr.2.2
    have := l.one_le_height
    have := r.one_le_height
    simp only [List.cons_append, Grammar.nesting_cons, Grammar.nesting_append, Grammar.nesting_nil,
      height]
    split at hrnesting <;> omega

theorem ReadsAs.signed {operand : Expr} {k : Nat} (sign : Sign) {ps : List Placed}
    (h : operand.ReadsAs (k + 2) ps) :
    (Expr.signed sign operand).ReadsAs k
      (⟨.leftParen, k⟩ :: (⟨sign.lexeme, k + 1⟩ :: ps) ++ [⟨.rightParen, k⟩]) := by
  obtain ⟨hlexemes, hderives, hnesting⟩ := h
  refine ⟨?_, .parenthesized (.ofTerm (.ofPower (.ofSigned (.sign sign (.ofAtom hderives))))), ?_⟩
  · simp [lexemes, hlexemes]
  · have := operand.one_le_height
    simp only [List.cons_append, Grammar.nesting_cons, Grammar.nesting_append, Grammar.nesting_nil,
      height]
    omega

theorem ReadsAs.call {k : Nat} (function : String) {arguments : List (List Placed × Expr)}
    (h : ∀ a ∈ arguments, a.2.ReadsAs (k + 1) a.1) :
    (Expr.call function (arguments.map Prod.snd)).ReadsAs k
      (⟨.name function, k⟩ :: ⟨.leftParen, k⟩ ::
        (separated k (arguments.map Prod.fst) ++ [] ++ [⟨.rightParen, k⟩])) := by
  have hseparated := map_lexeme_separated k fun a ha => (h a ha).1
  have hderives := Derives.call function arguments [] (.inl rfl) fun a ha =>
    (h a ha).2.1.expression_of_atom
  refine ⟨?_, hderives, ?_⟩
  · simp [lexemes, hseparated]
  · have hphrases : nesting (separated k (arguments.map Prod.fst)) ≤
        k + 2 * greatestHeight (arguments.map Prod.snd) := by
      refine (Grammar.nesting_separated_le_iff (by omega) _).mpr fun ps hps => ?_
      obtain ⟨a, ha, rfl⟩ := List.mem_map.mp hps
      have hnesting := (h a ha).2.2
      have hheight : a.2.height ≤ greatestHeight (arguments.map Prod.snd) :=
        height_le_greatestHeight (List.mem_map_of_mem ha)
      have := a.2.one_le_height
      omega
    simp only [List.append_nil, Grammar.nesting_cons, Grammar.nesting_append, Grammar.nesting_nil,
      height]
    omega

theorem Printable.exists_readsAs {t : Expr} (h : Printable t) : ∀ k, ∃ ps, t.ReadsAs k ps := by
  induction h with
  | @number value => exact fun k => ⟨[⟨.number value, k⟩], rfl, .number value, by simp [height]⟩
  | @name text => exact fun k => ⟨[⟨.name text, k⟩], rfl, .name text, by simp [height]⟩
  | @signed sign operand h ih =>
    intro k
    obtain ⟨ps, hps⟩ := ih (k + 2)
    exact ⟨_, hps.signed sign⟩
  | @binary operator left right hl hr ihl ihr =>
    intro k
    obtain ⟨ls, hls⟩ := ihl (k + 1)
    obtain ⟨rs, hrs⟩ := ihr (if operator = .pow then k + 2 else k + 1)
    exact ⟨_, hls.binary operator hrs⟩
  | @call function arguments hname h ih =>
    intro k
    obtain ⟨pairs, rfl, hpairs⟩ := exists_map_snd fun a ha => ih a ha (k + 1)
    exact ⟨_, ReadsAs.call function hpairs⟩

/-- The text of a tree is cut into tokens, and these are read as that tree, unless they are nested
too deeply, which no tree of height at most 100 is. -/
theorem Printable.read_render {t : Expr} (h : Printable t) :
    ∃ tokens, Token.scan t.render.toList = .ok tokens ∧ ∀ finish,
      (ofTokens tokens finish = .ok t ∨ ofTokens tokens finish = .error (.tooNested 200)) ∧
      (t.height ≤ 100 → ofTokens tokens finish = .ok t) := by
  obtain ⟨tokens, hlexemes, hscan⟩ := h.scans [] (fun _ _ hnil => nomatch hnil) 0
  obtain ⟨ps, hps, hderives, hnesting⟩ := h.exists_readsAs 1
  refine ⟨tokens, ?_, fun finish => ?_⟩
  · rw [render, String.toList_ofList, Token.scan, ← List.append_nil t.chars, hscan,
      Lexicon.scanFrom_nil]
    exact congrArg Except.ok (List.append_nil _)
  · rw [ofTokens_of_sentence finish hderives.expression_of_atom (hps.trans hlexemes.symm)]
    by_cases hfits : Grammar.Fits ps t
    · rw [if_pos hfits]
      exact ⟨.inl rfl, fun _ => rfl⟩
    · rw [if_neg hfits]
      refine ⟨.inr rfl, fun hheight => absurd ⟨?_, ?_⟩ hfits⟩
      · simp only [nestingLimit]
        omega
      · simp only [nestingLimit]
        omega

theorem read_render_power_of_signed :
    Printable (.call "power"
      [.signed .minus (.number 2.5), .binary .pow (.name "e") (.number 0.1)]) ∧
    ∃ tokens,
      Token.scan (render (.call "power"
        [.signed .minus (.number 2.5), .binary .pow (.name "e") (.number 0.1)])).toList =
          .ok tokens ∧
      ofTokens tokens 25 = .ok (.call "power"
        [.signed .minus (.number 2.5), .binary .pow (.name "e") (.number 0.1)]) := by
  have hpower : IsName "power".toList := by
    refine ⟨'p', ['o', 'w', 'e', 'r'], rfl, by decide, ?_⟩
    rw [List.forall_mem_cons, List.forall_mem_cons, List.forall_mem_cons,
      List.forall_mem_singleton]
    decide
  have he : IsName "e".toList := ⟨'e', [], rfl, by decide, nofun⟩
  have h : Printable
      (.call "power" [.signed .minus (.number 2.5), .binary .pow (.name "e") (.number 0.1)]) := by
    refine .call hpower ?_
    simp only [List.forall_mem_cons, List.not_mem_nil, false_implies, implies_true, and_true]
    exact ⟨.signed (.number (by decide) (by decide)),
      .binary (.name he) (.number (by decide) (by decide))⟩
  obtain ⟨tokens, hscan, hread⟩ := h.read_render
  exact ⟨h, tokens, hscan, (hread 25).2 (by decide)⟩

end Expr

end Reckoner
