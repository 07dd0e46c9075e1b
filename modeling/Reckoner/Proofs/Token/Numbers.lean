import Reckoner.Proofs.Token.Lexicon

/-!
# Reading numbers

The reader of literals takes a number of the lexicon, never less than any number that starts at the
same place, and exactly the number where nothing follows that could go on with it.
-/
namespace Reckoner.Lexicon

theorem digit_of_mem_digits {cs : List Char} {c : Char} (h : c ∈ (Literal.digits cs).1) :
    Digit c := by
  refine (isDigit_iff c).mp ?_
  exact (List.all_eq_true.mp List.all_takeWhile) c h

theorem digits_append {ds : List Char} (hds : ∀ c ∈ ds, Digit c) (rest : List Char) :
    Literal.digits (ds ++ rest) = (ds ++ (Literal.digits rest).1, (Literal.digits rest).2) := by
  have hall : ∀ c ∈ ds, c.isDigit = true := fun c hc => (isDigit_iff c).mpr (hds c hc)
  rw [Literal.digits, List.takeWhile_append_of_pos hall, List.dropWhile_append_of_pos hall]
  rfl

/-- Nothing follows that satisfies the predicate. -/
def Ends (p : Char → Prop) (rest : List Char) : Prop := ∀ c following, rest = c :: following → ¬ p c

theorem ends_nil (p : Char → Prop) : Ends p [] := nofun

theorem digits_of_ends {rest : List Char} (h : Ends Digit rest) :
    Literal.digits rest = ([], rest) := by
  cases rest with
  | nil => rfl
  | cons c following =>
    have hc : ¬ c.isDigit = true := fun hdigit => h c following rfl ((isDigit_iff c).mp hdigit)
    rw [Literal.digits, List.takeWhile_cons_of_neg hc, List.dropWhile_cons_of_neg hc]

theorem exponent_of_readExponent (cs : List Char) :
    Exponent ((Literal.readExponent cs).1.elim [] Literal.Exponent.chars)
      ((Literal.readExponent cs).1.elim 0 Literal.Exponent.value) := by
  cases cs with
  | nil => exact .absent
  | cons mark rest =>
    rw [Literal.readExponent]
    by_cases h : (mark = 'e' ∨ mark = 'E') ∧ (Literal.digits (Literal.sign rest).2).1 ≠ []
    · have hsign : (Literal.sign rest).1 = none ∨ (Literal.sign rest).1 = some '+' ∨
          (Literal.sign rest).1 = some '-' := by
        unfold Literal.sign
        split <;> simp
      simp only [if_pos h]
      exact .present h.1 hsign (fun c => digit_of_mem_digits) h.2
    · simp only [if_neg h]
      exact .absent

theorem mantissa_of_readFraction {cs : List Char}
    (h : ¬ ((Literal.digits cs).1 = [] ∧
      (Literal.readFraction (Literal.digits cs).2).1.getD [] = [])) :
    Mantissa ((Literal.digits cs).1 ++
        (Literal.readFraction (Literal.digits cs).2).1.elim [] ('.' :: ·))
      (Literal.digits cs).1 ((Literal.readFraction (Literal.digits cs).2).1.getD []) := by
  have hds : ∀ c ∈ (Literal.digits cs).1, Digit c := fun c => digit_of_mem_digits
  unfold Literal.readFraction at h ⊢
  split at h
  · exact .point hds (fun c => digit_of_mem_digits) (Decidable.not_and_iff_not_or_not.mp h)
  · rw [Option.elim_none, List.append_nil]
    exact .whole hds fun hnil => h ⟨hnil, rfl⟩

theorem number_of_read? {cs rest : List Char} {l : Literal}
    (h : Literal.read? cs = some (l, rest)) : Number l.chars l.toDecimal := by
  simp only [Literal.read?, Option.ite_none_left_eq_some, Option.some.injEq, Prod.mk.injEq] at h
  obtain ⟨hdigits, rfl, -⟩ := h
  exact .mk (mantissa_of_readFraction hdigits) (exponent_of_readExponent _)

theorem readFraction_of_ne {rest : List Char} (h : Ends (· = '.') rest) :
    Literal.readFraction rest = (none, rest) := by
  unfold Literal.readFraction
  split
  · next following => exact absurd rfl (h '.' following rfl)
  · rfl

/-- Where neither a digit nor a point follows, the digits are read as they stand. -/
theorem read?_of_mantissa {m ds fs : List Char} (hm : Mantissa m ds fs) {rest : List Char}
    (hdigit : Ends Digit rest) (hpoint : Ends (· = '.') rest) :
    ∃ fraction : Option (List Char), ds ++ fraction.elim [] ('.' :: ·) = m ∧
      fraction.getD [] = fs ∧
      Literal.read? (m ++ rest) =
        some (⟨ds, fraction, (Literal.readExponent rest).1⟩, (Literal.readExponent rest).2) := by
  cases hm with
  | whole hds hne =>
    refine ⟨none, List.append_nil m, rfl, ?_⟩
    rw [Literal.read?, digits_append hds, digits_of_ends hdigit]
    simp only [readFraction_of_ne hpoint, List.append_nil, hne, false_and, ↓reduceIte]
  | point hds hfs hne =>
    refine ⟨some fs, rfl, rfl, ?_⟩
    have hafter : Literal.digits ('.' :: fs ++ rest) = ([], '.' :: fs ++ rest) :=
      digits_of_ends (by rintro c following ⟨⟩; exact fun h => h.not_mem (by simp))
    rw [Literal.read?, List.append_assoc, digits_append hds, hafter]
    simp only [Literal.readFraction, List.cons_append, digits_append hfs, digits_of_ends hdigit,
      List.append_nil, Option.getD_some]
    rw [if_neg (Decidable.not_and_iff_not_or_not.mpr hne)]

theorem sign_append {sign : Option Char} (hsign : sign = none ∨ sign = some '+' ∨ sign = some '-')
    {ds : List Char} (hds : ∀ c ∈ ds, Digit c) (hne : ds ≠ []) (rest : List Char) :
    Literal.sign (sign.toList ++ ds ++ rest) = (sign, ds ++ rest) := by
  rcases hsign with rfl | rfl | rfl
  · cases ds with
    | nil => exact absurd rfl hne
    | cons d ds =>
      have hd := (hds d List.mem_cons_self).not_mem
      show Literal.sign (d :: (ds ++ rest)) = _
      unfold Literal.sign
      split
      · next h => cases h; simp at hd
      · next h => cases h; simp at hd
      · rfl
  · rfl
  · rfl

/-- An exponent is read with all digits that follow it. -/
theorem readExponent_of_present {mark : Char} {sign : Option Char} {ds : List Char}
    (hmark : mark = 'e' ∨ mark = 'E') (hsign : sign = none ∨ sign = some '+' ∨ sign = some '-')
    (hds : ∀ c ∈ ds, Digit c) (hne : ds ≠ []) (rest : List Char) :
    Literal.readExponent (mark :: sign.toList ++ ds ++ rest) =
      (some ⟨mark, sign, ds ++ (Literal.digits rest).1⟩, (Literal.digits rest).2) := by
  show Literal.readExponent (mark :: (sign.toList ++ ds ++ rest)) = _
  rw [Literal.readExponent, sign_append hsign hds hne]
  simp only [digits_append hds]
  rw [if_pos ⟨hmark, by simp [hne]⟩]

theorem readExponent_of_ends {rest : List Char} (h : Ends (fun c => c = 'e' ∨ c = 'E') rest) :
    Literal.readExponent rest = (none, rest) := by
  cases rest with
  | nil => rfl
  | cons c following =>
    rw [Literal.readExponent]
    simp only [if_neg fun hmark => h c following rfl (And.left hmark)]

/-- A number with an exponent is read with all digits that follow it. -/
theorem read?_of_present {m ds fs es : List Char} (hm : Mantissa m ds fs) {mark : Char}
    {sign : Option Char} (hmark : mark = 'e' ∨ mark = 'E')
    (hsign : sign = none ∨ sign = some '+' ∨ sign = some '-') (hes : ∀ c ∈ es, Digit c)
    (hne : es ≠ []) (rest : List Char) :
    ∃ fraction : Option (List Char), ds ++ fraction.elim [] ('.' :: ·) = m ∧
      fraction.getD [] = fs ∧
      Literal.read? (m ++ (mark :: sign.toList ++ es ++ rest)) =
        some (⟨ds, fraction, some ⟨mark, sign, es ++ (Literal.digits rest).1⟩⟩,
          (Literal.digits rest).2) := by
  have hdigit : Ends Digit (mark :: sign.toList ++ es ++ rest) := by
    rintro c following ⟨⟩ hc
    rcases hmark with rfl | rfl <;> exact hc.not_mem (by simp)
  have hpoint : Ends (· = '.') (mark :: sign.toList ++ es ++ rest) := by
    rintro c following ⟨⟩ rfl
    simp at hmark
  obtain ⟨fraction, hchars, hfraction, hread⟩ := read?_of_mantissa hm hdigit hpoint
  rw [readExponent_of_present hmark hsign hes hne] at hread
  exact ⟨fraction, hchars, hfraction, hread⟩

/-- The characters that may go on with a number. -/
def GoesOn (c : Char) : Prop := Digit c ∨ c = '.' ∨ c = 'e' ∨ c = 'E'

/-- Where nothing goes on with it, the number is read, and only the number. -/
theorem read?_of_number {cs : List Char} {d : Decimal} (h : Number cs d) {rest : List Char}
    (hends : Ends GoesOn rest) :
    ∃ l, Literal.read? (cs ++ rest) = some (l, rest) ∧ l.chars = cs ∧ l.toDecimal = d := by
  have hdigit : Ends Digit rest := fun c following hrest hc => hends c following hrest (.inl hc)
  obtain ⟨hm, he⟩ := h
  cases he with
  | absent =>
    obtain ⟨fraction, hchars, hfraction, hread⟩ := read?_of_mantissa hm hdigit
      fun c following hrest hc => hends c following hrest (.inr (.inl hc))
    rw [readExponent_of_ends fun c following hrest hc => hends c following hrest (.inr (.inr hc))]
      at hread
    rw [← hchars] at hread ⊢
    rw [← hfraction, List.append_nil]
    exact ⟨_, hread, List.append_nil _, rfl⟩
  | present hmark hsign hes hne =>
    obtain ⟨fraction, hchars, hfraction, hread⟩ := read?_of_present hm hmark hsign hes hne rest
    rw [digits_of_ends hdigit, List.append_nil] at hread
    rw [← hchars] at hread ⊢
    rw [← hfraction, List.append_assoc]
    exact ⟨_, hread, rfl, rfl⟩

/-- Whatever follows digits and a point, at least these are read. -/
theorem length_le_of_mantissa {m ds fs : List Char} (hm : Mantissa m ds fs) (rest : List Char) :
    ∃ l following, Literal.read? (m ++ rest) = some (l, following) ∧
      m.length ≤ l.chars.length := by
  cases hm with
  | whole hds hne =>
    rw [Literal.read?, digits_append hds]
    simp only
    rw [if_neg fun hnil => hne (List.append_eq_nil_iff.mp hnil.1).1]
    refine ⟨_, _, rfl, ?_⟩
    simp only [Literal.chars, List.length_append]
    omega
  | @point ds fs hds hfs hne =>
    have hafter : Literal.digits ('.' :: (fs ++ rest)) = ([], '.' :: (fs ++ rest)) :=
      digits_of_ends (by rintro c following ⟨⟩; exact fun h => h.not_mem (by simp))
    rw [List.append_assoc, List.cons_append, Literal.read?, digits_append hds, hafter]
    simp only [Literal.readFraction, digits_append hfs, Option.getD_some, List.append_nil]
    rw [if_neg fun hnil => hne.elim (· hnil.1) (· (List.append_eq_nil_iff.mp hnil.2).1)]
    refine ⟨_, _, rfl, ?_⟩
    simp only [Literal.chars, Option.elim_some, List.length_append, List.length_cons]
    omega

/-- Whatever follows a number, at least the number is read. -/
theorem length_le_of_number {cs : List Char} {d : Decimal} (h : Number cs d) (rest : List Char) :
    ∃ l following, Literal.read? (cs ++ rest) = some (l, following) ∧
      cs.length ≤ l.chars.length := by
  obtain ⟨hm, he⟩ := h
  cases he with
  | absent =>
    rw [List.append_nil]
    exact length_le_of_mantissa hm rest
  | present hmark hsign hes hne =>
    obtain ⟨fraction, hchars, -, hread⟩ := read?_of_present hm hmark hsign hes hne rest
    rw [List.append_assoc]
    refine ⟨_, _, hread, ?_⟩
    rw [← hchars]
    simp only [Literal.chars, Literal.Exponent.chars, Option.elim_some, List.length_append,
      List.length_cons]
    omega

end Reckoner.Lexicon
