import Reckoner.Proofs.Expr.RoundTrip
import Reckoner.Proofs.Expr.Text
import Reckoner.Proofs.Window.Deletion

/-!
# What buttons enter is read apart

The spaces around what a button enters keep it from what stands before it. Pressing any button but a
digit or the point leaves the lexemes of the entry as they were and puts those of the button after
them. Operators, parentheses and the comma make a seam of their own, or have one in the space before
them. A name has none: it stands apart exactly where the entry does not end as a name does. The
space after a digit sees to that, but for a letter or an underscore that nothing is put after.
-/
namespace Reckoner

section

variable {cs ds : List Char}

theorem IsName.namePart (h : IsName cs) : ∀ c ∈ cs, Lexicon.NamePart c := by
  obtain ⟨c, following, rfl, hc, hfollowing⟩ := h
  exact List.forall_mem_cons.mpr ⟨.inl hc, hfollowing⟩

theorem IsName.exists_spells (h : IsName cs) : ∃ l, Lexicon.Spells cs l := by
  obtain ⟨c, following, rfl, hc, hfollowing⟩ := h
  exact ⟨_, .name hc hfollowing⟩

theorem IsName.append (h : IsName cs) (hds : ∀ d ∈ ds, Lexicon.NamePart d) :
    IsName (cs ++ ds) := by
  obtain ⟨c, following, rfl, hc, hfollowing⟩ := h
  exact ⟨c, following ++ ds, rfl, hc, List.forall_mem_append.mpr ⟨hfollowing, hds⟩⟩

theorem IsName.of_append (h : IsName (cs ++ ds)) (hne : cs ≠ []) : IsName cs := by
  obtain ⟨c, cs, rfl⟩ := List.exists_cons_of_ne_nil hne
  obtain ⟨c, following, happend, hc, hfollowing⟩ := h
  cases happend
  exact ⟨c, cs, rfl, hc, fun d hd => hfollowing d (List.mem_append_left ds hd)⟩

end

namespace Lexicon

section Names

variable {cs ds chars : List Char} {l : Lexeme} {ls : List Lexeme} {c : Char}

theorem Number.last_cases {d : Decimal} (h : Number cs d) (hlast : cs.getLast? = some c) :
    Digit c ∨ c = '.' := by
  obtain ⟨hm, he⟩ := h
  cases he with
  | absent =>
    rw [List.append_nil] at hlast
    cases hm with
    | whole hds => exact .inl (hds c (List.mem_of_getLast? hlast))
    | @point ds fs hds hfs =>
      rw [List.getLast?_append_of_ne_nil _ (List.cons_ne_nil _ _)] at hlast
      exact (List.mem_cons.mp (List.mem_of_getLast? hlast)).symm.imp_left (hfs c)
  | present _ _ hds hne =>
    rw [← List.append_assoc, List.getLast?_append_of_ne_nil _ hne] at hlast
    exact .inl (hds c (List.mem_of_getLast? hlast))

/-- A lexeme that ends in a letter is a name. -/
theorem Spells.isName_of_last (h : Spells chars l) (hlast : chars.getLast? = some c)
    (hc : NameStart c) : IsName chars := by
  have hnot := hc.not_mem
  cases h with
  | number h =>
    rcases h.last_cases hlast with hdigit | rfl
    · exact absurd hc hdigit.not_nameStart
    · simp at hnot
  | name hstart hrest => exact ⟨_, _, rfl, hstart, hrest⟩
  | _ =>
    cases hlast
    simp at hnot

theorem Spells.isName_of_append {x y : List Char} (h : Spells (x ++ y) l) (hy : y ≠ [])
    (hstart : ∀ d ∈ y, NameStart d) : IsName (x ++ y) := by
  refine h.isName_of_last ?_ (hstart _ (List.getLast_mem hy))
  rw [List.getLast?_append_of_ne_nil _ hy, List.getLast?_eq_some_getLast hy]

/-- Letters stand apart from what does not end as a name does. -/
theorem apart_of_nameStart (hlast : ∀ c, cs.getLast? = some c → ¬ NamePart c)
    (hds : ∀ d ∈ ds, NameStart d) : Apart cs ds := by
  intro x y l hx hy hxcs hyds hspells
  have hname := hspells.isName_of_append hy fun d hd => hds d (hyds.subset hd)
  obtain ⟨before, rfl⟩ := hxcs
  refine hlast (x.getLast hx) ?_ (hname.namePart _ (List.mem_append_left y (List.getLast_mem hx)))
  rw [List.getLast?_append_of_ne_nil _ hx, List.getLast?_eq_some_getLast hx]

/-- A character that separates may follow at a seam. -/
theorem Apart.concat (h : Apart cs ds) (hc : Separates c) : Apart cs (ds ++ [c]) := by
  intro x y l hx hy hxcs hyds hspells
  rcases List.prefix_concat_iff.mp hyds with rfl | hyds
  · have hxy := congrArg List.length (hc _ l hspells (by simp))
    have := List.length_pos_iff.mpr hx
    simp only [List.length_append, List.length_cons, List.length_nil] at hxy
    omega
  · exact h x y l hx hy hxcs hyds hspells

/-- Letters after a lexeme that is not the last one leave it as it is: a longer one would be a name,
and then the whole text before the letters would be one too. -/
theorem Longest.append_of_nameStart {rest : List Char} (h : Longest cs chars l rest)
    (hrest : rest ≠ []) (hds : ∀ d ∈ ds, NameStart d) :
    Longest (cs ++ ds) chars l (rest ++ ds) := by
  refine ⟨by rw [h.eq_append, List.append_assoc], h.spells,
    fun chars' rest' l' happend hspells => ?_⟩
  have hinside : ∀ after, cs = chars' ++ after → chars'.length ≤ chars.length := fun after hcs =>
    h.length_le chars' after l' hcs hspells
  rcases List.append_eq_append_iff.mp happend with ⟨y, rfl, rfl⟩ | ⟨after, hcs, -⟩
  · by_cases hy : y = []
    · subst hy
      exact hinside [] (by simp)
    · have hname := hspells.isName_of_append hy fun d hd => hds d (List.mem_append_left rest' hd)
      have hcs : cs ≠ [] := by
        rw [h.eq_append]
        exact List.append_ne_nil_of_right_ne_nil chars hrest
      obtain ⟨l', hwhole⟩ := (hname.of_append hcs).exists_spells
      have hle := h.length_le cs [] l' (List.append_nil cs).symm hwhole
      have hlength := congrArg List.length h.eq_append
      have := List.length_pos_iff.mpr hrest
      rw [List.length_append] at hlength
      omega
  · exact hinside after hcs

/-- Letters after a letter add no lexeme: the last one goes on with them. -/
theorem Lexemes.exists_append_nameStart (h : Lexemes cs ls) (hlast : cs.getLast? = some c)
    (hc : NameStart c) (hds : ∀ d ∈ ds, NameStart d) :
    ∃ ls', Lexemes (cs ++ ds) ls' ∧ ls'.length = ls.length := by
  induction h with
  | nil => cases hlast
  | @blank b cs ls hb h ih =>
    by_cases hcs : cs = []
    · subst hcs
      obtain rfl : b = c := Option.some.inj hlast
      rw [NamePart.not_isBlank (.inl hc)] at hb
      cases hb
    · rw [List.getLast?_cons_of_ne_nil hcs] at hlast
      obtain ⟨ls', hls', hlength⟩ := ih hlast
      exact ⟨ls', .blank hb hls', hlength⟩
  | @lexeme cs chars l rest ls hlongest h ih =>
    by_cases hrest : rest = []
    · subst hrest
      obtain rfl := lexemes_nil_iff.mp h
      rw [hlongest.eq_append, List.append_nil] at hlast ⊢
      have hname := (hlongest.spells.isName_of_last hlast hc).append fun d hd => .inl (hds d hd)
      obtain ⟨l', hspells⟩ := hname.exists_spells
      exact ⟨[l'], hspells.lexemes, rfl⟩
    · rw [hlongest.eq_append, List.getLast?_append_of_ne_nil _ hrest] at hlast
      obtain ⟨ls', hls', hlength⟩ := ih hlast
      refine ⟨l :: ls', .lexeme (hlongest.append_of_nameStart hrest hds) hls', ?_⟩
      rw [List.length_cons, List.length_cons, hlength]

end Names

theorem separates_leftParen : Separates '(' := separates_of_not_mem (by decide) (by decide)

theorem separates_rightParen : Separates ')' := separates_of_not_mem (by decide) (by decide)

theorem separates_comma : Separates ',' := separates_of_not_mem (by decide) (by decide)

end Lexicon
namespace Window

open Lexicon (Lexemes Spells Apart NameStart NamePart)
open Text (trimSpaces)

/-- The lexemes of what the button with this label enters. -/
def Button.lexemes : String → List Lexeme
  | "(" => [.leftParen]
  | ")" => [.rightParen]
  | "," => [.comma]
  | "+" => [.plus]
  | "-" => [.minus]
  | "*" => [.star]
  | "/" => [.slash]
  | "^" => [.doubleStar]
  | name => if name ∈ Registry.functionNames then [.name name, .leftParen] else [.name name]

/-- The button enters a name, and nothing keeps it from a name at the end of the entry: a constant
goes on with a letter or an underscore, and a function with an underscore. -/
def Button.Joins (label : String) (entry : List Char) : Prop :=
  ∃ c, entry.getLast? = some c ∧
    (label ∈ Registry.constantNames ∧ NameStart c ∨ label ∈ Registry.functionNames ∧ c = '_')

section

variable {label name : String} {i : Insertion} {entry text : List Char} {ls : List Lexeme}
  {c : Char}

theorem lexemes_of_mem_constantNames (h : name ∈ Registry.constantNames) :
    Button.lexemes name = [.name name] := by
  have hall : ∀ name ∈ Registry.constantNames, Button.lexemes name = [.name name] := by decide
  exact hall name h

theorem lexemes_of_mem_functionNames (h : name ∈ Registry.functionNames) :
    Button.lexemes name = [.name name, .leftParen] := by
  have hall : ∀ name ∈ Registry.functionNames,
      Button.lexemes name = [.name name, .leftParen] := by decide
  exact hall name h

theorem nameStart_of_mem_names (h : name ∈ Registry.functionNames ++ Registry.constantNames) :
    ∀ c ∈ name.toList, NameStart c :=
  fun c hc => nameStart_of_isAlpha ((letters_of_mem_names h).2 c hc)

theorem spells_of_mem_names (h : name ∈ Registry.functionNames ++ Registry.constantNames) :
    Spells name.toList (.name name) := by
  obtain ⟨c, following, hchars⟩ := List.exists_cons_of_ne_nil (letters_of_mem_names h).1
  have hstart := nameStart_of_mem_names h
  rw [hchars, List.forall_mem_cons] at hstart
  exact IsName.spells ⟨c, following, hchars, hstart.1, fun d hd => .inl (hstart.2 d hd)⟩

theorem expandCarets_of_mem_names (h : name ∈ Registry.functionNames ++ Registry.constantNames) :
    expandCarets name.toList = name.toList :=
  expandCarets_of_not_mem fun hcaret => absurd (nameStart_of_mem_names h '^' hcaret) (by decide)

theorem expandCarets_constant (h : name ∈ Registry.constantNames) :
    expandCarets (name.toList ++ Spacing.word.after) = name.toList := by
  simp only [Spacing.after, List.append_nil]
  exact expandCarets_of_mem_names (List.mem_append_right _ h)

theorem expandCarets_function (h : name ∈ Registry.functionNames) :
    expandCarets (name.toList ++ ['('] ++ Spacing.opening.after) = name.toList ++ ['('] := by
  simp only [Spacing.after, List.append_nil]
  rw [expandCarets_append, expandCarets_of_mem_names (List.mem_append_left _ h)]
  rfl

/-- What a button enters has the lexemes of the button. -/
theorem Enters.lexemes (h : Enters label i) (hspacing : i.spacing ≠ .joined) :
    Lexemes (expandCarets (i.text ++ i.spacing.after)) (Button.lexemes label) := by
  have hspace : ∀ d ∈ [' '], Text.isBlank d = true :=
    List.forall_mem_singleton.mpr Lexicon.isBlank_space
  cases h with
  | digit => exact absurd rfl hspacing
  | constant hname =>
    rw [lexemes_of_mem_constantNames hname, expandCarets_constant hname]
    exact (spells_of_mem_names (List.mem_append_right _ hname)).lexemes
  | function hname =>
    have hspells := spells_of_mem_names (List.mem_append_left Registry.constantNames hname)
    rw [lexemes_of_mem_functionNames hname, expandCarets_function hname]
    exact (Lexicon.separates_leftParen.apart_cons _ []).lexemes_append hspells.lexemes
      Spells.leftParen.lexemes
  | leftParen => exact Spells.leftParen.lexemes
  | @operator label c hlabel hc =>
    obtain rfl : label = .ofList [c] :=
      String.toList_injective (by rw [hlabel, String.toList_ofList])
    rw [Spacing.after, expandCarets_append]
    refine (Lexicon.lexemes_append_blanks_iff hspace).mpr ?_
    simp only [List.mem_cons, List.not_mem_nil, or_false] at hc
    rcases hc with rfl | rfl | rfl | rfl | rfl
    exacts [Spells.plus.lexemes, Spells.minus.lexemes, Spells.star.lexemes, Spells.slash.lexemes,
      Spells.doubleStar.lexemes]
  | rightParen => exact Spells.rightParen.lexemes
  | comma =>
    have hcomma : Lexemes [','] [.comma] := Spells.comma.lexemes
    exact (Lexicon.lexemes_append_blanks_iff hspace).mpr hcomma

theorem lexemes_trimSpaces_iff (cs : List Char) :
    Lexemes (expandCarets (trimSpaces cs)) ls ↔ Lexemes (expandCarets cs) ls := by
  have hblank : ∀ c ∈ cs.rtakeWhile (· = ' '), Text.isBlank c = true := by
    intro c hc
    obtain rfl : c = ' ' := by simpa using List.mem_rtakeWhile_imp hc
    exact Lexicon.isBlank_space
  have hsplit : cs = trimSpaces cs ++ cs.rtakeWhile (· = ' ') :=
    (List.rdropWhile_append_rtakeWhile (p := (· = ' ')) (l := cs)).symm
  conv_rhs => rw [hsplit]
  rw [expandCarets_append, expandCarets_of_blanks hblank, Lexicon.lexemes_append_blanks_iff hblank]

/-- An insertion leaves the lexemes of what stands before it. -/
theorem lexemes_front_iff (i : Insertion) (entry : List Char) :
    Lexemes (expandCarets (i.front entry)) ls ↔ Lexemes (expandCarets entry) ls := by
  rw [← lexemes_trimSpaces_iff, i.trimSpaces_front, lexemes_trimSpaces_iff]

theorem getLast?_expandCarets (cs : List Char) :
    (expandCarets cs).getLast? = cs.getLast?.map fun c => if c = '^' then '*' else c := by
  induction cs using List.reverseRecOn with
  | nil => rfl
  | append_singleton cs c =>
    rw [expandCarets_append, List.getLast?_concat]
    by_cases hc : c = '^'
    · subst hc
      exact List.getLast?_append_of_ne_nil _ (List.cons_ne_nil '*' ['*'])
    · rw [expandCarets_cons_of_ne hc, expandCarets_nil, List.getLast?_concat, Option.map_some,
        if_neg hc]

/-- No name ends what stands before a constant, unless a letter or an underscore does. -/
theorem not_namePart_of_front_word (hlast : ∀ c, entry.getLast? = some c → ¬ NameStart c)
    (h : (Insertion.front ⟨text, .word⟩ entry).getLast? = some c) : ¬ NamePart c := by
  rcases last_front_word h with rfl | ⟨hc, hdigit⟩
  · decide
  · exact fun hpart => hpart.elim (hlast c hc) hdigit

/-- No name ends what stands before a function, unless an underscore does. -/
theorem not_namePart_of_front_opening (hlast : entry.getLast? ≠ some '_')
    (h : (Insertion.front ⟨text, .opening⟩ entry).getLast? = some c) : ¬ NamePart c := by
  rcases last_front_opening h with rfl | ⟨hc, hunderscore⟩
  · decide
  · exact fun hpart => hlast (hunderscore hpart ▸ hc)

theorem not_namePart_of_expandCarets
    (h : ∀ c, entry.getLast? = some c → ¬ NamePart c) :
    ∀ c, (expandCarets entry).getLast? = some c → ¬ NamePart c := by
  intro c hc
  rw [getLast?_expandCarets] at hc
  obtain ⟨d, hd, rfl⟩ := Option.map_eq_some_iff.mp hc
  split
  · decide
  · exact h d hd

/-- What a button enters stands apart from what is before it. -/
theorem Enters.apart (h : Enters label i) (hspacing : i.spacing ≠ .joined)
    (hjoins : ¬ Button.Joins label entry) :
    Apart (expandCarets (i.front entry)) (expandCarets (i.text ++ i.spacing.after)) := by
  cases h with
  | digit => exact absurd rfl hspacing
  | constant hname =>
    have hlast : ∀ c, entry.getLast? = some c → ¬ NameStart c := fun c hc hstart =>
      hjoins ⟨c, hc, .inl ⟨hname, hstart⟩⟩
    rw [expandCarets_constant hname]
    exact Lexicon.apart_of_nameStart
      (not_namePart_of_expandCarets fun c hc => not_namePart_of_front_word hlast hc)
      (nameStart_of_mem_names (List.mem_append_right _ hname))
  | function hname =>
    have hlast : entry.getLast? ≠ some '_' := fun hc => hjoins ⟨'_', hc, .inr ⟨hname, rfl⟩⟩
    rw [expandCarets_function hname]
    refine Lexicon.Apart.concat ?_ Lexicon.separates_leftParen
    exact Lexicon.apart_of_nameStart
      (not_namePart_of_expandCarets fun c hc => not_namePart_of_front_opening hlast hc)
      (nameStart_of_mem_names (List.mem_append_left _ hname))
  | leftParen => exact Lexicon.separates_leftParen.apart_cons _ _
  | @operator _ c =>
    rcases front_operator_cases [c] entry with hfront | ⟨before, hfront⟩
    · rw [hfront]
      intro x y l hx _ hxcs
      exact absurd (List.suffix_nil.mp hxcs) hx
    · rw [hfront, expandCarets_append]
      exact (Lexicon.separates_of_isBlank Lexicon.isBlank_space).apart_concat _ _
  | rightParen => exact Lexicon.separates_rightParen.apart_cons _ _
  | comma => exact Lexicon.separates_comma.apart_cons _ _

theorem expandCarets_apply (i : Insertion) (entry : List Char) :
    expandCarets (i.apply entry) =
      expandCarets (i.front entry) ++ expandCarets (i.text ++ i.spacing.after) := by
  rw [i.apply_eq, List.append_assoc, expandCarets_append]

theorem Enters.lexemes_apply (h : Enters label i) (hspacing : i.spacing ≠ .joined)
    (hjoins : ¬ Button.Joins label entry) (hls : Lexemes (expandCarets entry) ls) :
    Lexemes (expandCarets (i.apply entry)) (ls ++ Button.lexemes label) := by
  rw [expandCarets_apply]
  exact (h.apart hspacing hjoins).lexemes_append ((lexemes_front_iff i entry).mpr hls)
    (h.lexemes hspacing)

theorem Button.Joins.nameStart (h : Button.Joins label entry) :
    label ∈ Registry.functionNames ++ Registry.constantNames ∧
      ∃ c, entry.getLast? = some c ∧ NameStart c := by
  obtain ⟨c, hlast, ⟨hname, hc⟩ | ⟨hname, rfl⟩⟩ := h
  · exact ⟨List.mem_append_right _ hname, c, hlast, hc⟩
  · exact ⟨List.mem_append_left _ hname, '_', hlast, .inr (.inr rfl)⟩

theorem front_word_of_nameStart (hlast : entry.getLast? = some c) (hc : NameStart c) :
    Insertion.front ⟨text, .word⟩ entry = entry := by
  have hdigit : c.isDigit = false := Bool.eq_false_of_not_eq_true fun hdigit =>
    ((Lexicon.isDigit_iff c).mp hdigit).not_nameStart hc
  have hparen : c ≠ ')' := by
    rintro rfl
    exact hc.not_mem (by simp)
  simp [Insertion.front, hlast, closesNumber, hdigit, hparen]

theorem front_opening_of_underscore (hlast : entry.getLast? = some '_') :
    Insertion.front ⟨text, .opening⟩ entry = entry := by
  obtain ⟨before, rfl⟩ := List.getLast?_eq_some_iff.mp hlast
  have hblank : Text.isBlank '_' = false := by decide
  have hcloses : closesOperand '_' = false := by decide
  simp [Insertion.front, lastVisible?, hblank, hcloses]

/-- A name entered after a letter or an underscore adds no lexeme. -/
theorem exists_lexemes_append_name (hname : name ∈ Registry.functionNames ++ Registry.constantNames)
    (hlast : entry.getLast? = some c) (hc : NameStart c)
    (hls : Lexemes (expandCarets entry) ls) :
    ∃ ls', Lexemes (expandCarets (entry ++ name.toList)) ls' ∧ ls'.length = ls.length := by
  have hcaret : c ≠ '^' := by
    rintro rfl
    exact absurd hc (by decide)
  have hend : (expandCarets entry).getLast? = some c := by
    rw [getLast?_expandCarets, hlast, Option.map_some, if_neg hcaret]
  rw [expandCarets_append, expandCarets_of_mem_names hname]
  exact hls.exists_append_nameStart hend hc (nameStart_of_mem_names hname)

/-- A constant after a letter, or a function after an underscore, is one lexeme with what is before
it, so a lexeme of the button is missing. -/
theorem Enters.not_lexemes_apply (h : Enters label i) (hspacing : i.spacing ≠ .joined)
    (hjoins : Button.Joins label entry) (hls : Lexemes (expandCarets entry) ls) :
    ¬ Lexemes (expandCarets (i.apply entry)) (ls ++ Button.lexemes label) := by
  obtain ⟨hmem, c, hlast, hc⟩ := hjoins.nameStart
  have hletters := (letters_of_mem_names hmem).2
  obtain ⟨ls', hls', hlength⟩ := exists_lexemes_append_name hmem hlast hc hls
  rw [i.apply_eq]
  intro happly
  cases h with
  | digit => exact absurd rfl hspacing
  | constant hname =>
    simp only [Spacing.after, List.append_nil] at happly
    rw [front_word_of_nameStart hlast hc, lexemes_of_mem_constantNames hname] at happly
    have hsum := congrArg List.length (happly.unique hls')
    simp [hlength] at hsum
  | function hname =>
    have hunderscore : entry.getLast? = some '_' := by
      obtain ⟨d, hd, ⟨hconstant, -⟩ | ⟨-, rfl⟩⟩ := hjoins
      · have hnot : ∀ name ∈ Registry.functionNames, name ∉ Registry.constantNames := by decide
        exact absurd hconstant (hnot _ hname)
      · exact hd
    simp only [Spacing.after, List.append_nil] at happly
    rw [front_opening_of_underscore hunderscore, lexemes_of_mem_functionNames hname,
      ← List.append_assoc, expandCarets_append] at happly
    have hjoined := (Lexicon.separates_leftParen.apart_cons _ []).lexemes_append hls'
      Spells.leftParen.lexemes
    have hsum := congrArg List.length (happly.unique hjoined)
    simp [hlength] at hsum
  | leftParen => exact absurd (hletters '(' (by simp)) (by decide)
  | @operator _ d hlabel hd =>
    have halpha := hletters d (by simp [hlabel])
    simp only [List.mem_cons, List.not_mem_nil, or_false] at hd
    rcases hd with rfl | rfl | rfl | rfl | rfl <;> exact absurd halpha (by decide)
  | rightParen => exact absurd (hletters ')' (by simp)) (by decide)
  | comma => exact absurd (hletters ',' (by simp)) (by decide)

end

/-- Only the digits and the point are joined to what stands before them. -/
theorem spacing_ne_joined {label : String} {i : Insertion}
    (h : (label, Button.insert i) ∈ Button.all)
    (hdigit : (label, Button.insert i) ∉ Button.digits) : i.spacing ≠ .joined := by
  have hall : Button.all.all fun b => decide (b ∈ Button.digits) ||
      match b.2 with
      | .insert i => decide (i.spacing ≠ .joined)
      | _ => true := by decide
  simpa [hdigit] using List.all_eq_true.mp hall _ h

/-- Where the text of the entry is cut into tokens, it still is after a button was pressed, and they
are the lexemes that the entry had and then those of the button, exactly if the button joins no name
to another one. -/
theorem scan_insert_iff (w : Window) {label : String} {i : Insertion} {tokens : List Token}
    (hbutton : (label, Button.insert i) ∈ Button.all)
    (hdigit : (label, Button.insert i) ∉ Button.digits)
    (hscan : Token.scan (expandCarets w.entry.toList) = .ok tokens) :
    (∃ tokens', Token.scan (expandCarets (w.step (.press (.insert i))).entry.toList) = .ok tokens' ∧
      tokens'.map Token.lexeme = tokens.map Token.lexeme ++ Button.lexemes label) ↔
      ¬ Button.Joins label w.entry.toList := by
  have henters := enters_of_mem hbutton
  have hspacing := spacing_ne_joined hbutton hdigit
  have hls := Lexicon.lexemes_iff_scan.mpr ⟨tokens, hscan, rfl⟩
  rw [toList_entry_insert, ← Lexicon.lexemes_iff_scan]
  constructor
  · exact fun happly hjoins => henters.not_lexemes_apply hspacing hjoins hls happly
  · exact fun hjoins => henters.lexemes_apply hspacing hjoins hls

/-- A star after a star stays a star. -/
theorem scan_insert_star_after_star :
    ("*", Button.insert ⟨['*'], .operator⟩) ∈ Button.all ∧
    ("*", Button.insert ⟨['*'], .operator⟩) ∉ Button.digits ∧
    Token.scan (expandCarets (run [.assign "*"]).entry.toList) = .ok [⟨.star, 0⟩] ∧
    ∃ tokens, Token.scan (expandCarets
        ((run [.assign "*"]).step (.press (.insert ⟨['*'], .operator⟩))).entry.toList) =
          .ok tokens ∧
      tokens.map Token.lexeme = [.star, .star] := by
  have hbutton : ("*", Button.insert ⟨['*'], .operator⟩) ∈ Button.all := by decide
  have hdigit : ("*", Button.insert ⟨['*'], .operator⟩) ∉ Button.digits := by decide
  have hscan : Token.scan (expandCarets (run [.assign "*"]).entry.toList) = .ok [⟨.star, 0⟩] := by
    show Token.scanFrom 0 ['*'] = _
    rw [Lexicon.scanFrom_lexeme (by decide) (Lexicon.head?_of_star (Lexicon.ends_nil _)),
      Lexicon.scanFrom_nil]
    rfl
  have hjoins : ¬ Button.Joins "*" (run [.assign "*"]).entry.toList := by
    rintro ⟨c, -, ⟨hname, -⟩ | ⟨hname, -⟩⟩ <;> exact absurd hname (by decide)
  exact ⟨hbutton, hdigit, hscan, (scan_insert_iff _ hbutton hdigit hscan).mpr hjoins⟩

end Window
end Reckoner
