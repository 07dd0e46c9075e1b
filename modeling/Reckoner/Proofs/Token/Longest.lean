import Reckoner.Proofs.Decimal.Value
import Reckoner.Proofs.Token.Numbers

/-!
# The longest lexeme

What is taken from the head of a text is the longest lexeme of the lexicon that starts there, and
nothing is taken only if no lexeme does. A lexeme is taken as it stands where nothing goes on with
it.
-/
namespace Reckoner.Lexicon

theorem Number.exists_head {cs : List Char} {d : Decimal} (h : Number cs d) :
    ∃ c following, cs = c :: following ∧ (Digit c ∨ c = '.') := by
  cases h with
  | @mk m ds fs e n hm he =>
  cases hm with
  | whole hds hne =>
    obtain ⟨c, ds, rfl⟩ := List.exists_cons_of_ne_nil hne
    exact ⟨c, _, rfl, .inl (hds c List.mem_cons_self)⟩
  | point hds hfs hne =>
    cases ds with
    | nil => exact ⟨'.', _, rfl, .inr rfl⟩
    | cons c ds => exact ⟨c, _, rfl, .inl (hds c List.mem_cons_self)⟩

/-- A character that is no sign starts a name or a number, if it starts anything. -/
theorem head?_of_not_mem {c : Char} (h : c ∉ ['+', '-', '/', ',', '(', ')', '*'])
    (rest : List Char) :
    Lexeme.head? (c :: rest) =
      if isNameStart c then
        some ⟨.name (.ofList (c :: rest.takeWhile isNamePart)), c :: rest.takeWhile isNamePart,
          rest.dropWhile isNamePart⟩
      else (Literal.read? (c :: rest)).map fun (literal, rest) =>
        ⟨.number literal.toFloat, literal.chars, rest⟩ := by
  simp only [List.mem_cons, List.not_mem_nil, or_false, not_or] at h
  unfold Lexeme.head?
  split
  case h_10 heq =>
    cases heq
    rfl
  all_goals simp_all

theorem head?_of_nameStart {c : Char} (h : NameStart c) (rest : List Char) :
    Lexeme.head? (c :: rest) =
      some ⟨.name (.ofList (c :: rest.takeWhile isNamePart)), c :: rest.takeWhile isNamePart,
        rest.dropWhile isNamePart⟩ := by
  have hnot := h.not_mem
  rw [head?_of_not_mem fun hmem => hnot (by simp at hmem ⊢; tauto)]
  exact if_pos ((isNameStart_iff c).mpr h)

theorem head?_of_number {c : Char} (h : Digit c ∨ c = '.') (rest : List Char) :
    Lexeme.head? (c :: rest) = (Literal.read? (c :: rest)).map fun (literal, rest) =>
      ⟨.number literal.toFloat, literal.chars, rest⟩ := by
  have hstart : ¬ isNameStart c = true := by
    rw [isNameStart_iff]
    rcases h with h | rfl
    · exact h.not_nameStart
    · exact fun hname => hname.not_mem (by simp)
  rw [head?_of_not_mem, if_neg hstart]
  rcases h with h | rfl
  · exact fun hmem => h.not_mem (by simp at hmem ⊢; tauto)
  · decide

theorem head?_of_star {rest : List Char} (h : Ends (· = '*') rest) :
    Lexeme.head? ('*' :: rest) = some ⟨.star, ['*'], rest⟩ := by
  cases rest with
  | nil => rfl
  | cons c following =>
    have hc : c ≠ '*' := h c following rfl
    unfold Lexeme.head?
    split
    case h_10 hstar heq =>
      cases heq
      contradiction
    all_goals simp_all

theorem spells_of_head? {cs : List Char} {head : Lexeme.Head} (h : Lexeme.head? cs = some head) :
    Spells head.chars head.lexeme := by
  unfold Lexeme.head? at h
  split at h
  case h_10 c rest _ _ _ _ _ _ _ _ =>
    split at h
    · next hstart =>
      cases h
      refine .name ((isNameStart_iff c).mp hstart) fun d hd => (isNamePart_iff d).mp ?_
      exact List.all_eq_true.mp List.all_takeWhile d hd
    · obtain ⟨⟨literal, rest⟩, hread, rfl⟩ := Option.map_eq_some_iff.mp h
      show Spells literal.chars (.number literal.toDecimal.toFloat)
      rw [Decimal.toFloat_eq_nearest]
      exact .number (number_of_read? hread)
  all_goals cases h
  exacts [.plus, .minus, .slash, .comma, .leftParen, .rightParen, .doubleStar, .star]

/-- Whatever follows a lexeme, at least the lexeme is taken. -/
theorem Spells.exists_head? {chars : List Char} {lexeme : Lexeme} (h : Spells chars lexeme)
    (rest : List Char) :
    ∃ head, Lexeme.head? (chars ++ rest) = some head ∧ chars.length ≤ head.chars.length := by
  cases h with
  | number h =>
    obtain ⟨c, following, rfl, hc⟩ := h.exists_head
    obtain ⟨l, after, hread, hlength⟩ := length_le_of_number h rest
    rw [List.cons_append] at hread ⊢
    rw [head?_of_number hc, hread]
    exact ⟨_, rfl, hlength⟩
  | @name c cs hc hcs =>
    have hall : ∀ d ∈ cs, isNamePart d = true := fun d hd => (isNamePart_iff d).mpr (hcs d hd)
    rw [List.cons_append, head?_of_nameStart hc, List.takeWhile_append_of_pos hall]
    refine ⟨_, rfl, ?_⟩
    simp only [List.length_cons, List.length_append]
    omega
  | star =>
    by_cases hends : Ends (· = '*') rest
    · rw [List.singleton_append, head?_of_star hends]
      exact ⟨_, rfl, le_refl _⟩
    · obtain ⟨c, following, rfl, rfl⟩ : ∃ c following, rest = c :: following ∧ c = '*' := by
        simpa [Ends] using hends
      exact ⟨_, rfl, Nat.le_succ 1⟩
  | _ => exact ⟨_, rfl, le_refl _⟩

/-- What is taken is the longest lexeme. -/
theorem longest_of_head? {cs : List Char} {head : Lexeme.Head} (h : Lexeme.head? cs = some head) :
    Longest cs head.chars head.lexeme head.rest := by
  refine ⟨(Lexeme.head?_append h).symm, spells_of_head? h, ?_⟩
  rintro chars rest lexeme rfl hspells
  obtain ⟨head', hhead, hlength⟩ := hspells.exists_head? rest
  rw [h] at hhead
  cases hhead
  exact hlength

theorem head?_eq_none_iff (cs : List Char) : Lexeme.head? cs = none ↔ ¬ Starts cs := by
  constructor
  · rintro h ⟨chars, rest, lexeme, rfl, hspells⟩
    obtain ⟨head, hhead, -⟩ := hspells.exists_head? rest
    rw [h] at hhead
    cases hhead
  · intro h
    cases hhead : Lexeme.head? cs with
    | none => rfl
    | some head =>
      exact absurd ⟨_, _, _, (Lexeme.head?_append hhead).symm, spells_of_head? hhead⟩ h

/-- The characters that may go on with a lexeme. -/
def Continues : Lexeme → Char → Prop
  | .number _ => GoesOn
  | .name _ => NamePart
  | .star => (· = '*')
  | _ => fun _ => False

/-- Where nothing goes on with it, a lexeme is taken as it stands. -/
theorem Spells.head?_eq {chars : List Char} {lexeme : Lexeme} (h : Spells chars lexeme)
    {rest : List Char} (hends : Ends (Continues lexeme) rest) :
    Lexeme.head? (chars ++ rest) = some ⟨lexeme, chars, rest⟩ := by
  cases h with
  | number h =>
    obtain ⟨c, following, rfl, hc⟩ := h.exists_head
    obtain ⟨l, hread, hchars, hvalue⟩ := read?_of_number h hends
    have hfloat : l.toFloat = Binary64.nearest _ := Decimal.toFloat_eq_nearest l.toDecimal
    rw [List.cons_append] at hread ⊢
    rw [head?_of_number hc, hread]
    simp only [Option.map_some, hchars, hfloat, hvalue]
  | @name c cs hc hcs =>
    have hall : ∀ d ∈ cs, isNamePart d = true := fun d hd => (isNamePart_iff d).mpr (hcs d hd)
    have hrest : rest.takeWhile isNamePart = [] ∧ rest.dropWhile isNamePart = rest := by
      cases rest with
      | nil => exact ⟨rfl, rfl⟩
      | cons d following =>
        have hd : ¬ isNamePart d = true := fun hpart =>
          hends d following rfl ((isNamePart_iff d).mp hpart)
        exact ⟨List.takeWhile_cons_of_neg hd, List.dropWhile_cons_of_neg hd⟩
    rw [List.cons_append, head?_of_nameStart hc, List.takeWhile_append_of_pos hall,
      List.dropWhile_append_of_pos hall, hrest.1, hrest.2, List.append_nil]
  | star => exact head?_of_star hends
  | _ => rfl

/-- The characters determine the lexeme. -/
theorem Spells.unique {chars : List Char} {l l' : Lexeme} (h : Spells chars l)
    (h' : Spells chars l') : l = l' := by
  have hhead := h.head?_eq (ends_nil _)
  rw [h'.head?_eq (ends_nil _)] at hhead
  cases hhead
  rfl

/-- The longest lexeme is what is taken. -/
theorem Longest.head?_eq {cs chars rest : List Char} {lexeme : Lexeme}
    (h : Longest cs chars lexeme rest) : Lexeme.head? cs = some ⟨lexeme, chars, rest⟩ := by
  cases hhead : Lexeme.head? cs with
  | none =>
    exact absurd ⟨chars, rest, lexeme, h.eq_append, h.spells⟩ ((head?_eq_none_iff cs).mp hhead)
  | some head =>
    have hlongest := longest_of_head? hhead
    have hle := hlongest.length_le chars rest lexeme h.eq_append h.spells
    have hge := h.length_le head.chars head.rest head.lexeme hlongest.eq_append hlongest.spells
    obtain ⟨hchars, hrest⟩ := List.append_inj (h.eq_append.symm.trans hlongest.eq_append)
      (Nat.le_antisymm hle hge)
    have hlexeme := h.spells.unique (hchars ▸ hlongest.spells)
    rw [hchars, hrest, hlexeme]

end Reckoner.Lexicon
