import Reckoner.Token.Lexer

/-!
# The lexemes

Which texts are lexemes, as a relation of its own: numbers, names, and eight fixed spellings. A
number is digits with an optional point and more digits, or a point with at least one digit after
it, and then an exponent if at least one digit follows its mark and its optional sign.

A text is cut at a place where the longest lexeme that starts there ends.
-/
namespace Reckoner.Lexicon

def Digit (c : Char) : Prop := '0' ≤ c ∧ c ≤ '9'

def NameStart (c : Char) : Prop := ('a' ≤ c ∧ c ≤ 'z') ∨ ('A' ≤ c ∧ c ≤ 'Z') ∨ c = '_'

def NamePart (c : Char) : Prop := NameStart c ∨ Digit c

theorem isDigit_iff (c : Char) : c.isDigit = true ↔ Digit c := by
  simp only [Char.isDigit, Bool.and_eq_true, decide_eq_true_eq]
  exact Iff.rfl

theorem isNameStart_iff (c : Char) : isNameStart c = true ↔ NameStart c := by
  unfold isNameStart Char.isAlpha Char.isUpper Char.isLower
  simp only [Bool.or_eq_true, Bool.and_eq_true, decide_eq_true_eq]
  rw [or_assoc, or_left_comm]
  exact Iff.rfl

theorem isNamePart_iff (c : Char) : isNamePart c = true ↔ NamePart c := by
  have h : isNamePart c = (isNameStart c || c.isDigit) := by
    simp only [isNamePart, isNameStart, Char.isAlphanum, Bool.or_assoc, Bool.or_comm c.isDigit]
  rw [h, Bool.or_eq_true, isNameStart_iff, isDigit_iff]
  exact Iff.rfl

instance : DecidablePred Digit := fun c => decidable_of_iff _ (isDigit_iff c)

instance : DecidablePred NameStart := fun c => decidable_of_iff _ (isNameStart_iff c)

instance : DecidablePred NamePart := fun c => decidable_of_iff _ (isNamePart_iff c)

/-- A number before its exponent, with the digits on both sides of the point. -/
inductive Mantissa : List Char → List Char → List Char → Prop where
  | whole {ds} (hds : ∀ c ∈ ds, Digit c) (hne : ds ≠ []) : Mantissa ds ds []
  | point {ds fs} (hds : ∀ c ∈ ds, Digit c) (hfs : ∀ c ∈ fs, Digit c) (hne : ds ≠ [] ∨ fs ≠ []) :
      Mantissa (ds ++ '.' :: fs) ds fs

/-- The exponent of a number and its value. -/
inductive Exponent : List Char → Int → Prop where
  | absent : Exponent [] 0
  | present {mark sign ds} (hmark : mark = 'e' ∨ mark = 'E')
      (hsign : sign = none ∨ sign = some '+' ∨ sign = some '-') (hds : ∀ c ∈ ds, Digit c)
      (hne : ds ≠ []) :
      Exponent (mark :: sign.toList ++ ds)
        (if sign = some '-' then -(Nat.ofDigitChars 10 ds 0 : Int) else Nat.ofDigitChars 10 ds 0)

/-- A number and its exact value. -/
inductive Number : List Char → Decimal → Prop where
  | mk {m ds fs e n} (hm : Mantissa m ds fs) (he : Exponent e n) :
      Number (m ++ e) ⟨Nat.ofDigitChars 10 (ds ++ fs) 0, n - fs.length⟩

/-- The characters of a lexeme. A number stands for the double-precision number nearest to it. -/
inductive Spells : List Char → Lexeme → Prop where
  | number {cs d} (h : Number cs d) : Spells cs (.number (Binary64.nearest d.value))
  | name {c cs} (hc : NameStart c) (hcs : ∀ d ∈ cs, NamePart d) :
      Spells (c :: cs) (.name (.ofList (c :: cs)))
  | plus : Spells ['+'] .plus
  | minus : Spells ['-'] .minus
  | star : Spells ['*'] .star
  | doubleStar : Spells ['*', '*'] .doubleStar
  | slash : Spells ['/'] .slash
  | comma : Spells [','] .comma
  | leftParen : Spells ['('] .leftParen
  | rightParen : Spells [')'] .rightParen

/-- Some lexeme starts at the head of the text. -/
def Starts (cs : List Char) : Prop :=
  ∃ chars rest lexeme, cs = chars ++ rest ∧ Spells chars lexeme

/-- The lexeme is the longest of those that start at the head of the text. -/
structure Longest (cs chars : List Char) (lexeme : Lexeme) (rest : List Char) : Prop where
  eq_append : cs = chars ++ rest
  spells : Spells chars lexeme
  length_le : ∀ chars' rest' lexeme', cs = chars' ++ rest' → Spells chars' lexeme' →
    chars'.length ≤ chars.length

/-- A name starts with no sign, no digit, no point and no mark of punctuation. -/
theorem NameStart.not_mem {c : Char} (h : NameStart c) :
    c ∉ ['+', '-', '/', ',', '(', ')', '*', '.', ' '] := by
  intro hmem
  have hstart := (isNameStart_iff c).mpr h
  simp only [List.mem_cons, List.not_mem_nil, or_false] at hmem
  rcases hmem with rfl | rfl | rfl | rfl | rfl | rfl | rfl | rfl | rfl <;>
    exact absurd hstart (by decide)

theorem Digit.not_mem {c : Char} (h : Digit c) :
    c ∉ ['+', '-', '/', ',', '(', ')', '*', '.', 'e', 'E', ' '] := by
  intro hmem
  have hdigit := (isDigit_iff c).mpr h
  simp only [List.mem_cons, List.not_mem_nil, or_false] at hmem
  rcases hmem with rfl | rfl | rfl | rfl | rfl | rfl | rfl | rfl | rfl | rfl | rfl <;>
    exact absurd hdigit (by decide)

theorem Digit.not_nameStart {c : Char} (h : Digit c) : ¬ NameStart c := by
  obtain ⟨hlow, hhigh⟩ := h
  have hzero : (48 : Nat) ≤ c.val.toNat := hlow
  have hnine : c.val.toNat ≤ 57 := hhigh
  rintro (⟨ha, -⟩ | ⟨hA, -⟩ | rfl)
  · have : (97 : Nat) ≤ c.val.toNat := ha
    omega
  · have : (65 : Nat) ≤ c.val.toNat := hA
    omega
  · exact absurd hnine (by decide)

end Reckoner.Lexicon
