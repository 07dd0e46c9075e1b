import Reckoner.Proofs.Token.Scan

/-!
# The lexemes of a text

What a text is cut into, without the places: its lexemes in order. A text is put together from
others at seams. Where no lexeme would cross the seam, the lexemes of the whole are those of the one
part and then those of the other, and the whole is refused if one of them is. A character that
stands in no lexeme but its own makes a seam on both its sides, and a blank stands in none at all.
-/
namespace Reckoner
namespace Lexicon

open Text (isBlank)

/-- The text is cut into blanks and longest lexemes, and these are the lexemes in order. -/
inductive Lexemes : List Char → List Lexeme → Prop where
  | nil : Lexemes [] []
  | blank {c cs ls} (hc : isBlank c = true) (h : Lexemes cs ls) : Lexemes (c :: cs) ls
  | lexeme {cs chars l rest ls} (hlongest : Longest cs chars l rest) (h : Lexemes rest ls) :
      Lexemes cs (l :: ls)

theorem Spells.ne_nil {chars : List Char} {l : Lexeme} (h : Spells chars l) : chars ≠ [] := by
  obtain ⟨c, following, rfl, -⟩ := h.exists_not_isBlank
  exact List.cons_ne_nil _ _

theorem Cut.lexemes {position : Nat} {cs rest : List Char} {pieces : List Piece}
    (h : Cut position cs pieces rest) (hrest : rest = []) :
    Lexemes cs (pieces.map fun piece => piece.token.lexeme) := by
  induction h with
  | stop => exact hrest ▸ .nil
  | blank hc h ih => exact .blank hc (ih hrest)
  | lexeme hlongest h ih => exact .lexeme hlongest (ih hrest)

theorem Lexemes.exists_cut {cs : List Char} {ls : List Lexeme} (h : Lexemes cs ls) :
    ∀ position, ∃ pieces, Cut position cs pieces [] ∧
      (pieces.map fun piece => piece.token.lexeme) = ls := by
  induction h with
  | nil => exact fun position => ⟨[], .stop, rfl⟩
  | @blank c cs ls hc h ih =>
    intro position
    obtain ⟨pieces, hcut, hls⟩ := ih (position + c.utf8Size)
    exact ⟨pieces, .blank hc hcut, hls⟩
  | @lexeme cs chars l rest ls hlongest h ih =>
    intro position
    obtain ⟨pieces, hcut, hls⟩ := ih (position + Text.byteLength chars)
    exact ⟨⟨⟨l, position⟩, chars⟩ :: pieces, .lexeme hlongest hcut, congrArg (l :: ·) hls⟩

/-- The tokens of a text are its lexemes with their places. -/
theorem lexemes_iff_scan {cs : List Char} {ls : List Lexeme} :
    Lexemes cs ls ↔ ∃ tokens, Token.scan cs = .ok tokens ∧ tokens.map Token.lexeme = ls := by
  constructor
  · intro h
    obtain ⟨pieces, hcut, hls⟩ := h.exists_cut 0
    refine ⟨pieces.map Piece.token, hcut.scanFrom_eq_ok, ?_⟩
    rw [List.map_map]
    exact hls
  · rintro ⟨tokens, hscan, rfl⟩
    obtain ⟨pieces, hcut, rfl⟩ := Token.exists_cut_of_scan hscan
    rw [List.map_map]
    exact hcut.lexemes rfl

/-- A text has one cut. -/
theorem Lexemes.unique {cs : List Char} {ls ls' : List Lexeme} (h : Lexemes cs ls)
    (h' : Lexemes cs ls') : ls = ls' := by
  obtain ⟨tokens, hscan, rfl⟩ := lexemes_iff_scan.mp h
  obtain ⟨tokens', hscan', rfl⟩ := lexemes_iff_scan.mp h'
  obtain rfl : tokens = tokens' := Except.ok.inj (hscan.symm.trans hscan')
  rfl

/-- No lexeme ends one text and goes on in the other. -/
def Apart (cs ds : List Char) : Prop :=
  ∀ x y l, x ≠ [] → y ≠ [] → x <:+ cs → y <+: ds → ¬ Spells (x ++ y) l

section Apart

variable {cs ds : List Char} {ls : List Lexeme}

theorem mem_of_suffix_concat {c : Char} {x : List Char} (hx : x ≠ []) (h : x <:+ cs ++ [c]) :
    c ∈ x := by
  obtain ⟨before, hbefore⟩ := h
  have hlast := congrArg List.getLast? hbefore
  rw [List.getLast?_append_of_ne_nil _ hx, List.getLast?_concat] at hlast
  exact List.mem_of_getLast? hlast

theorem Apart.of_suffix {cs' : List Char} (h : Apart cs ds) (hcs : cs' <:+ cs) : Apart cs' ds :=
  fun x y l hx hy hxcs hyds => h x y l hx hy (hxcs.trans hcs) hyds

/-- A lexeme at the head of two texts with a seam between them lies in the first of them. -/
theorem Apart.exists_rest {chars rest : List Char} {l : Lexeme} (h : Apart cs ds) (hne : cs ≠ [])
    (happend : cs ++ ds = chars ++ rest) (hspells : Spells chars l) :
    ∃ rest', cs = chars ++ rest' ∧ rest = rest' ++ ds := by
  rcases List.append_eq_append_iff.mp happend with ⟨y, rfl, rfl⟩ | ⟨rest', rfl, rfl⟩
  · by_cases hy : y = []
    · subst hy
      exact ⟨[], by simp, by simp⟩
    · exact absurd hspells (h cs y l hne hy List.suffix_rfl (List.prefix_append y rest))
  · exact ⟨rest', rfl, rfl⟩

theorem Apart.longest_of_append {chars rest : List Char} {l : Lexeme} (h : Apart cs ds)
    (hne : cs ≠ []) (hlongest : Longest (cs ++ ds) chars l rest) :
    ∃ rest', rest = rest' ++ ds ∧ Longest cs chars l rest' := by
  obtain ⟨rest', rfl, rfl⟩ := h.exists_rest hne hlongest.eq_append hlongest.spells
  refine ⟨rest', rfl, rfl, hlongest.spells, fun chars' after l' happend hspells => ?_⟩
  refine hlongest.length_le chars' (after ++ ds) l' ?_ hspells
  rw [happend, List.append_assoc]

theorem Apart.longest_append {chars rest : List Char} {l : Lexeme} (h : Apart cs ds)
    (hlongest : Longest cs chars l rest) : Longest (cs ++ ds) chars l (rest ++ ds) := by
  have hne : cs ≠ [] := by
    rw [hlongest.eq_append]
    exact List.append_ne_nil_of_left_ne_nil hlongest.spells.ne_nil rest
  refine ⟨?_, hlongest.spells, fun chars' after l' happend hspells => ?_⟩
  · rw [← List.append_assoc, ← hlongest.eq_append]
  · obtain ⟨after', hcs, -⟩ := h.exists_rest hne happend hspells
    exact hlongest.length_le chars' after' l' hcs hspells

theorem Apart.exists_lexemes (h : Apart cs ds) (hls : Lexemes (cs ++ ds) ls) :
    ∃ ls₁ ls₂, ls = ls₁ ++ ls₂ ∧ Lexemes cs ls₁ ∧ Lexemes ds ls₂ := by
  generalize hwhole : cs ++ ds = whole at hls
  induction hls generalizing cs with
  | nil =>
    obtain ⟨rfl, rfl⟩ := List.append_eq_nil_iff.mp hwhole
    exact ⟨[], [], rfl, .nil, .nil⟩
  | @blank c whole ls hc hls ih =>
    cases cs with
    | nil =>
      obtain rfl : ds = c :: whole := hwhole
      exact ⟨[], ls, rfl, .nil, .blank hc hls⟩
    | cons d cs =>
      cases hwhole
      obtain ⟨ls₁, ls₂, rfl, h₁, h₂⟩ := ih (h.of_suffix (List.suffix_cons _ _)) rfl
      exact ⟨ls₁, ls₂, rfl, .blank hc h₁, h₂⟩
  | @lexeme whole chars l rest ls hlongest hls ih =>
    subst hwhole
    by_cases hne : cs = []
    · subst hne
      exact ⟨[], l :: ls, rfl, .nil, .lexeme hlongest hls⟩
    · obtain ⟨rest', rfl, hlongest'⟩ := h.longest_of_append hne hlongest
      have hsuffix : rest' <:+ cs := ⟨chars, hlongest'.eq_append.symm⟩
      obtain ⟨ls₁, ls₂, rfl, h₁, h₂⟩ := ih (h.of_suffix hsuffix) rfl
      exact ⟨l :: ls₁, ls₂, rfl, .lexeme hlongest' h₁, h₂⟩

theorem Apart.lexemes_append {ls₁ ls₂ : List Lexeme} (h : Apart cs ds) (h₁ : Lexemes cs ls₁)
    (h₂ : Lexemes ds ls₂) : Lexemes (cs ++ ds) (ls₁ ++ ls₂) := by
  induction h₁ with
  | nil => exact h₂
  | blank hc _ ih => exact .blank hc (ih (h.of_suffix (List.suffix_cons _ _)))
  | @lexeme cs chars l rest ls hlongest _ ih =>
    have hsuffix : rest <:+ cs := ⟨chars, hlongest.eq_append.symm⟩
    exact .lexeme (h.longest_append hlongest) (ih (h.of_suffix hsuffix))

/-- At a seam the lexemes of the whole are those of the parts. -/
theorem Apart.lexemes_append_iff (h : Apart cs ds) :
    Lexemes (cs ++ ds) ls ↔ ∃ ls₁ ls₂, ls = ls₁ ++ ls₂ ∧ Lexemes cs ls₁ ∧ Lexemes ds ls₂ := by
  constructor
  · exact h.exists_lexemes
  · rintro ⟨ls₁, ls₂, rfl, h₁, h₂⟩
    exact h.lexemes_append h₁ h₂

end Apart

/-- The character stands in no lexeme but its own. -/
def Separates (c : Char) : Prop := ∀ chars l, Spells chars l → c ∈ chars → chars = [c]

/-- The characters of the lexemes that are not names. -/
def marks : List Char := ['.', '+', '-', '*', '/', ',', '(', ')']

theorem Number.mem_cases {cs : List Char} {d : Decimal} (h : Number cs d) {c : Char}
    (hc : c ∈ cs) : NamePart c ∨ c ∈ ['.', '+', '-'] := by
  obtain ⟨hm, he⟩ := h
  rcases List.mem_append.mp hc with hc | hc
  · cases hm with
    | whole hds => exact .inl (.inr (hds c hc))
    | point hds hfs =>
      rcases List.mem_append.mp hc with hc | hc
      · exact .inl (.inr (hds c hc))
      rcases List.mem_cons.mp hc with rfl | hc
      · exact .inr (by simp)
      · exact .inl (.inr (hfs c hc))
  · cases he with
    | absent => cases hc
    | present hmark hsign hds =>
      rcases List.mem_append.mp hc with hc | hc
      · rcases List.mem_cons.mp hc with rfl | hc
        · rcases hmark with rfl | rfl <;> exact .inl (.inl (by decide))
        · rcases hsign with rfl | rfl | rfl <;> simp_all
      · exact .inl (.inr (hds c hc))

/-- A lexeme is one mark, two stars, or it has no other marks than a point and signs. -/
theorem Spells.mem_cases {chars : List Char} {l : Lexeme} (h : Spells chars l) {c : Char}
    (hc : c ∈ chars) : NamePart c ∨ c ∈ ['.', '+', '-'] ∨ chars = [c] ∧ c ∈ marks ∨
      c = '*' ∧ chars = ['*', '*'] := by
  cases h with
  | number h => exact (h.mem_cases hc).imp_right .inl
  | name hstart hcs =>
    rcases List.mem_cons.mp hc with rfl | hc
    · exact .inl (.inl hstart)
    · exact .inl (hcs c hc)
  | doubleStar => exact .inr (.inr (.inr ⟨by simpa using hc, rfl⟩))
  | _ =>
    obtain rfl := List.mem_singleton.mp hc
    exact .inr (.inr (.inl ⟨rfl, by decide⟩))

theorem separates_of_not_mem {c : Char} (hname : ¬ NamePart c) (hc : c ∉ ['.', '+', '-', '*']) :
    Separates c := by
  intro chars l h hmem
  simp only [List.mem_cons, List.not_mem_nil, or_false, not_or] at hc
  obtain ⟨hpoint, hplus, hminus, hstar⟩ := hc
  rcases h.mem_cases hmem with h | h | h | h
  · exact absurd h hname
  · simp_all
  · exact h.1
  · exact absurd h.1 hstar

theorem NamePart.not_isBlank {c : Char} (h : NamePart c) : isBlank c = false := by
  rcases h with h | h
  · have := toNat_of_nameStart h
    exact not_isBlank_of_lt (by omega) (by omega)
  · have := toNat_of_digit h
    exact not_isBlank_of_lt (by omega) (by omega)

theorem not_isBlank_of_mem_marks {c : Char} (h : c ∈ marks) : isBlank c = false := by
  have hall : marks.all fun c => !isBlank c := by decide
  simpa using List.all_eq_true.mp hall c h

theorem separates_of_isBlank {c : Char} (h : isBlank c = true) : Separates c := by
  refine separates_of_not_mem (fun hname => ?_) fun hmem => ?_
  · rw [hname.not_isBlank] at h
    cases h
  · rw [not_isBlank_of_mem_marks (by simp [marks] at hmem ⊢; tauto)] at h
    cases h

theorem Separates.apart_cons {c : Char} (h : Separates c) (cs ds : List Char) :
    Apart cs (c :: ds) := by
  intro x y l hx hy _ hyds hspells
  obtain ⟨d, y, rfl⟩ := List.exists_cons_of_ne_nil hy
  obtain rfl := (List.cons_prefix_cons.mp hyds).1
  have hxy := congrArg List.length (h _ l hspells (by simp))
  have := List.length_pos_iff.mpr hx
  simp only [List.length_append, List.length_cons, List.length_nil] at hxy
  omega

theorem Separates.apart_concat {c : Char} (h : Separates c) (cs ds : List Char) :
    Apart (cs ++ [c]) ds := by
  intro x y l hx hy hxcs _ hspells
  have hc : c ∈ x := mem_of_suffix_concat hx hxcs
  have hxy := congrArg List.length (h _ l hspells (List.mem_append_left y hc))
  have := List.length_pos_iff.mpr hx
  have := List.length_pos_iff.mpr hy
  simp only [List.length_append, List.length_cons, List.length_nil] at hxy
  omega

theorem lexemes_nil_iff {ls : List Lexeme} : Lexemes [] ls ↔ ls = [] := by
  constructor
  · rintro (_ | _ | ⟨hlongest, -⟩)
    · rfl
    · exact absurd (List.append_eq_nil_iff.mp hlongest.eq_append.symm).1 hlongest.spells.ne_nil
  · rintro rfl
    exact .nil

theorem Spells.longest {chars : List Char} {l : Lexeme} (h : Spells chars l) :
    Longest chars chars l [] := by
  refine ⟨(List.append_nil chars).symm, h, fun chars' rest' l' happend _ => ?_⟩
  rw [happend, List.length_append]
  exact Nat.le_add_right _ _

theorem Spells.lexemes {chars : List Char} {l : Lexeme} (h : Spells chars l) :
    Lexemes chars [l] :=
  .lexeme h.longest .nil

theorem isBlank_space : isBlank ' ' = true := by decide

theorem lexemes_of_blanks {bs : List Char} (h : ∀ c ∈ bs, isBlank c = true) : Lexemes bs [] := by
  induction bs with
  | nil => exact .nil
  | cons c bs ih =>
    rw [List.forall_mem_cons] at h
    exact .blank h.1 (ih h.2)

theorem eq_nil_of_lexemes_blanks {bs : List Char} {ls : List Lexeme}
    (h : ∀ c ∈ bs, isBlank c = true) (hls : Lexemes bs ls) : ls = [] := by
  induction hls with
  | nil => rfl
  | blank _ _ ih => exact ih fun c hc => h c (List.mem_cons_of_mem _ hc)
  | lexeme hlongest =>
    obtain ⟨c, following, hchars, hc⟩ := hlongest.spells.exists_not_isBlank
    have hblank := h c (by rw [hlongest.eq_append, hchars]; exact List.mem_cons_self)
    rw [hc] at hblank
    cases hblank

/-- A blank makes a seam between what stands before and after it. -/
theorem lexemes_append_blank_iff {c : Char} (hc : isBlank c = true) {cs ds : List Char}
    {ls : List Lexeme} :
    Lexemes (cs ++ c :: ds) ls ↔ ∃ ls₁ ls₂, ls = ls₁ ++ ls₂ ∧ Lexemes cs ls₁ ∧ Lexemes ds ls₂ := by
  have hsingle : ∀ d ∈ [c], isBlank d = true := List.forall_mem_singleton.mpr hc
  have hbefore := (separates_of_isBlank hc).apart_cons cs ds
  have hafter : Apart [c] ds := (separates_of_isBlank hc).apart_concat [] ds
  constructor
  · intro h
    obtain ⟨ls₁, ls₂, rfl, h₁, h₂⟩ := hbefore.exists_lexemes h
    obtain ⟨ls₀, ls₃, rfl, h₀, h₃⟩ := hafter.exists_lexemes h₂
    obtain rfl := eq_nil_of_lexemes_blanks hsingle h₀
    exact ⟨ls₁, ls₃, rfl, h₁, h₃⟩
  · rintro ⟨ls₁, ls₂, rfl, h₁, h₂⟩
    exact hbefore.lexemes_append h₁ (.blank hc h₂)

theorem lexemes_blanks_append_iff {bs cs : List Char} {ls : List Lexeme}
    (h : ∀ c ∈ bs, isBlank c = true) : Lexemes (bs ++ cs) ls ↔ Lexemes cs ls := by
  induction bs with
  | nil => rfl
  | cons c bs ih =>
    rw [List.forall_mem_cons] at h
    have hseam : Lexemes ([] ++ c :: (bs ++ cs)) ls ↔ _ := lexemes_append_blank_iff h.1
    rw [← ih h.2]
    exact hseam.trans (by simp [lexemes_nil_iff])

theorem lexemes_append_blanks_iff {bs cs : List Char} {ls : List Lexeme}
    (h : ∀ c ∈ bs, isBlank c = true) : Lexemes (cs ++ bs) ls ↔ Lexemes cs ls := by
  cases bs with
  | nil => rw [List.append_nil]
  | cons c bs =>
    rw [List.forall_mem_cons] at h
    rw [lexemes_append_blank_iff h.1]
    constructor
    · rintro ⟨ls₁, ls₂, rfl, h₁, h₂⟩
      obtain rfl := eq_nil_of_lexemes_blanks h.2 h₂
      rwa [List.append_nil]
    · exact fun hls => ⟨ls, [], (List.append_nil ls).symm, hls, lexemes_of_blanks h.2⟩

end Lexicon
end Reckoner
