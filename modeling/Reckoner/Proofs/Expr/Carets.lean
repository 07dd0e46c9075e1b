import Mathlib.Data.List.Chain
import Reckoner.Proofs.Expr.Text

/-!
# The caret as an operator

A caret is replaced by two stars before the text is cut into lexemes, so it may run together with
stars and carets that stand next to it, and a run of stars is cut into pairs wherever it started.
This never gives an expression another meaning: no sentence has two stars, single or double, side by
side, and of a run of three characters or more at least two are left. A caret that stands alone is
cut off as an operator, as if there were blanks around it.
-/
namespace Reckoner

open Grammar (Placed Derives separated)
open Lexicon (Lexemes Spells Apart)

/-- Every caret as two stars with blanks around them. -/
def spaceCarets (cs : List Char) : List Char :=
  cs.flatMap fun c => if c = '^' then [' ', '*', '*', ' '] else [c]

theorem spaceCarets_append (cs ds : List Char) :
    spaceCarets (cs ++ ds) = spaceCarets cs ++ spaceCarets ds := List.flatMap_append

theorem spaceCarets_caret (cs : List Char) :
    spaceCarets ('^' :: cs) = ' ' :: '*' :: '*' :: ' ' :: spaceCarets cs := rfl

theorem spaceCarets_cons_of_ne {c : Char} (h : c ≠ '^') (cs : List Char) :
    spaceCarets (c :: cs) = c :: spaceCarets cs := by
  rw [spaceCarets, List.flatMap_cons, if_neg h]
  rfl

theorem caret_not_mem_spaceCarets (cs : List Char) : '^' ∉ spaceCarets cs := by
  intro h
  obtain ⟨c, -, hc⟩ := List.mem_flatMap.mp h
  split at hc
  · simp at hc
  · next hne => exact hne (List.mem_singleton.mp hc).symm

/-- The text with every caret as two stars with blanks around them. -/
def withSpacedCarets (text : String) : String := .ofList (spaceCarets text.toList)

theorem expandCarets_withSpacedCarets (text : String) :
    expandCarets (withSpacedCarets text).toList = spaceCarets text.toList := by
  rw [withSpacedCarets, String.toList_ofList,
    expandCarets_of_not_mem (caret_not_mem_spaceCarets _)]

/-- The operators that are written with stars. -/
def Lexeme.IsStar (l : Lexeme) : Prop := l = .star ∨ l = .doubleStar

namespace Grammar

/-- No two stars stand side by side. -/
def StarsApart (ls : List Lexeme) : Prop := ls.IsChain fun l l' => ¬ (l.IsStar ∧ l'.IsStar)

/-- Whatever stands before and after the phrase, it brings no two stars side by side. -/
def KeepsStarsApart (ls : List Lexeme) : Prop := ∀ l l', StarsApart (l :: ls ++ [l'])

section KeepsStarsApart

variable {ls rs : List Lexeme} {x : Lexeme}

theorem keepsStarsApart_singleton (hx : ¬ x.IsStar) : KeepsStarsApart [x] := by
  intro l l'
  simp [StarsApart, hx]

theorem KeepsStarsApart.cons (h : KeepsStarsApart ls) (hx : ¬ x.IsStar) :
    KeepsStarsApart (x :: ls) := by
  intro l l'
  exact List.isChain_cons_cons.mpr ⟨fun hstars => hx hstars.2, h x l'⟩

theorem KeepsStarsApart.join (hl : KeepsStarsApart ls) (hr : KeepsStarsApart rs) (x : Lexeme) :
    KeepsStarsApart (ls ++ x :: rs) := by
  intro l l'
  have hsplit : l :: (ls ++ x :: rs) ++ [l'] = (l :: ls) ++ x :: (rs ++ [l']) := by simp
  rw [hsplit]
  exact List.isChain_split.mpr ⟨hl l x, hr x l'⟩

theorem KeepsStarsApart.concat (h : KeepsStarsApart ls) (hx : ¬ x.IsStar) :
    KeepsStarsApart (ls ++ [x]) := by
  intro l l'
  have hsplit : l :: (ls ++ [x]) ++ [l'] = (l :: ls) ++ x :: [l'] := by simp
  rw [hsplit]
  exact List.isChain_split.mpr ⟨h l x, by simp [hx]⟩

/-- Phrases with commas between them, and perhaps one more at the end. -/
theorem keepsStarsApart_separated {k : Nat} {ps : List Placed} {phrases : List (List Placed)}
    (h : ∀ qs ∈ ps :: phrases, KeepsStarsApart (qs.map Placed.lexeme)) :
    KeepsStarsApart ((separated k (ps :: phrases)).map Placed.lexeme) := by
  rw [separated_cons]
  induction phrases generalizing ps with
  | nil => simpa using h
  | cons qs phrases ih =>
    rw [List.forall_mem_cons] at h
    have hjoin := h.1.join (ih h.2) .comma
    simpa using hjoin

end KeepsStarsApart

theorem keepsStarsApart_call {k : Nat} (function : String)
    {arguments : List (List Placed × Expr)} {last : List Placed}
    (hlast : last = [] ∨ last = [⟨.comma, k⟩] ∧ arguments ≠ [])
    (h : ∀ a ∈ arguments, KeepsStarsApart (a.1.map Placed.lexeme)) :
    KeepsStarsApart ((Placed.mk (.name function) k :: Placed.mk .leftParen k ::
      (separated k (arguments.map Prod.fst) ++ last ++ [Placed.mk .rightParen k])).map
        Placed.lexeme) := by
  have hclosed : KeepsStarsApart
      ((separated k (arguments.map Prod.fst) ++ last ++ [Placed.mk .rightParen k]).map
        Placed.lexeme) := by
    cases arguments with
    | nil =>
      obtain rfl : last = [] := by simpa using hlast
      exact keepsStarsApart_singleton (by simp [Lexeme.IsStar])
    | cons a arguments =>
      have hphrases : KeepsStarsApart
          ((separated k ((a :: arguments).map Prod.fst)).map Placed.lexeme) := by
        rw [List.map_cons]
        refine keepsStarsApart_separated fun qs hqs => ?_
        rw [← List.map_cons (f := Prod.fst)] at hqs
        obtain ⟨b, hb, rfl⟩ := List.mem_map.mp hqs
        exact h b hb
      rw [List.map_append, List.map_append]
      refine KeepsStarsApart.concat ?_ (by simp [Lexeme.IsStar])
      rcases hlast with rfl | ⟨rfl, -⟩
      · rwa [List.map_nil, List.append_nil]
      · exact hphrases.concat (by simp [Lexeme.IsStar])
  exact (hclosed.cons (by simp [Lexeme.IsStar])).cons (by simp [Lexeme.IsStar])

/-- A phrase neither starts nor ends with a star, and no two of its stars are side by side. -/
theorem Derives.keepsStarsApart {s : Symbol} {k : Nat} {ps : List Placed} {t : Expr}
    (h : Derives s k ps t) : KeepsStarsApart (ps.map Placed.lexeme) := by
  induction h with
  | ofTerm _ ih | ofPower _ ih | ofSigned _ ih | ofAtom _ ih => exact ih
  | additive _ _ _ _ ihl ihr | multiplicative _ _ _ _ ihl ihr | exponent _ _ ihl ihr =>
    rw [List.map_append, List.map_cons]
    exact ihl.join ihr _
  | sign s _ ih => exact ih.cons (by cases s <;> simp [Sign.lexeme, Lexeme.IsStar])
  | number | name => exact keepsStarsApart_singleton (by simp [Lexeme.IsStar])
  | parenthesized _ ih =>
    rw [List.cons_append, List.map_cons, List.map_append]
    exact (ih.concat (by simp [Lexeme.IsStar])).cons (by simp [Lexeme.IsStar])
  | call function arguments last hlast _ ih => exact keepsStarsApart_call function hlast ih

theorem Derives.starsApart {s : Symbol} {k : Nat} {ps : List Placed} {t : Expr}
    (h : Derives s k ps t) : StarsApart (ps.map Placed.lexeme) := by
  have hchain := h.keepsStarsApart .comma .comma
  exact hchain.infix ⟨[.comma], [.comma], by simp⟩

end Grammar

namespace Lexicon

theorem Spells.isStar_of_mem {chars : List Char} {l : Lexeme} (h : Spells chars l)
    (hstar : '*' ∈ chars) : l.IsStar ∧ (chars = ['*'] ∨ chars = ['*', '*']) := by
  rcases h.mem_cases hstar with hname | hmark | ⟨rfl, -⟩ | ⟨-, rfl⟩
  · exact absurd hname (by decide)
  · exact absurd hmark (by decide)
  · exact ⟨.inl (h.unique .star), .inl rfl⟩
  · exact ⟨.inr (h.unique .doubleStar), .inr rfl⟩

/-- Behind another character, a star starts a lexeme. -/
theorem apart_star {cs : List Char} (h : cs.getLast? ≠ some '*') (ds : List Char) :
    Apart cs ('*' :: ds) := by
  intro x y l hx hy hxcs hyds hspells
  obtain ⟨d, y, rfl⟩ := List.exists_cons_of_ne_nil hy
  obtain rfl := (List.cons_prefix_cons.mp hyds).1
  have hchars : x = ['*'] := by
    rcases (hspells.isStar_of_mem (by simp)).2 with hxy | hxy
    · exact absurd (List.append_eq_cons_iff.mp hxy) (by simp [hx])
    · cases x with
      | nil => contradiction
      | cons c x => cases x <;> simp_all
  subst hchars
  obtain ⟨before, rfl⟩ := hxcs
  exact h (by simp)

/-- Before another character, a star ends a lexeme. -/
theorem apart_of_head_ne_star {ds : List Char} (h : ds.head? ≠ some '*') (cs : List Char) :
    Apart (cs ++ ['*']) ds := by
  intro x y l hx hy hxcs hyds hspells
  have hstar : '*' ∈ x := mem_of_suffix_concat hx hxcs
  obtain ⟨d, y, rfl⟩ := List.exists_cons_of_ne_nil hy
  obtain ⟨after, rfl⟩ := hyds
  have hd : d ∈ ['*', '*'] := by
    rcases (hspells.isStar_of_mem (List.mem_append_left _ hstar)).2 with hxy | hxy
    · have hmem : d ∈ ['*'] := by
        rw [← hxy]
        simp
      simpa using hmem
    · rw [← hxy]
      simp
  simp at hd h
  exact h hd

/-- A run of stars is cut into stars, each of two characters at most. -/
theorem lexemes_of_stars {cs : List Char} {ls : List Lexeme} (h : Lexemes cs ls)
    (hcs : ∀ c ∈ cs, c = '*') : (∀ l ∈ ls, l.IsStar) ∧ cs.length ≤ 2 * ls.length := by
  induction h with
  | nil => simp
  | @blank c cs ls hc _ ih =>
    obtain rfl := hcs c List.mem_cons_self
    exact absurd hc (by decide)
  | @lexeme cs chars l rest ls hlongest _ ih =>
    rw [hlongest.eq_append, List.forall_mem_append] at hcs
    obtain ⟨c, following, hchars⟩ := List.exists_cons_of_ne_nil hlongest.spells.ne_nil
    have hstar : '*' ∈ chars := by
      have hmem : c ∈ chars := hchars ▸ List.mem_cons_self
      exact hcs.1 c hmem ▸ hmem
    obtain ⟨hl, hlength⟩ := hlongest.spells.isStar_of_mem hstar
    obtain ⟨hls, hrest⟩ := ih hcs.2
    refine ⟨List.forall_mem_cons.mpr ⟨hl, hls⟩, ?_⟩
    rw [hlongest.eq_append, List.length_append, List.length_cons]
    rcases hlength with rfl | rfl <;> simp only [List.length_cons, List.length_nil] <;> omega

/-- Two neighbours that are stars. -/
theorem not_starsApart {ls₁ ls₂ : List Lexeme} {l l' : Lexeme} (hl : l.IsStar) (hl' : l'.IsStar) :
    ¬ Grammar.StarsApart (ls₁ ++ l :: l' :: ls₂) := by
  intro h
  have hpair := List.isChain_iff_forall_rel_of_append_cons_cons.mp h rfl
  exact hpair ⟨hl, hl'⟩

/-- Between other characters, a run of stars is cut by itself. -/
theorem lexemes_run {before run after : List Char} {ls : List Lexeme}
    (h : Lexemes (before ++ run ++ after) ls) (hrun : ∀ c ∈ run, c = '*') (hne : run ≠ [])
    (hbefore : before.getLast? ≠ some '*') (hafter : after.head? ≠ some '*') :
    ∃ ls₁ stars ls₂, ls = ls₁ ++ stars ++ ls₂ ∧ Lexemes before ls₁ ∧ Lexemes after ls₂ ∧
      (∀ l ∈ stars, l.IsStar) ∧ run.length ≤ 2 * stars.length := by
  obtain ⟨init, hinit⟩ : ∃ init, run = init ++ ['*'] := by
    refine ⟨run.dropLast, ?_⟩
    rw [← hrun _ (List.getLast_mem hne), List.dropLast_append_getLast hne]
  have hseam : Apart (before ++ run) after := by
    rw [hinit, ← List.append_assoc]
    exact apart_of_head_ne_star hafter _
  obtain ⟨ls₀, ls₂, rfl, h₀, h₂⟩ := hseam.exists_lexemes h
  have hseam' : Apart before run := by
    obtain ⟨c, tail, rfl⟩ := List.exists_cons_of_ne_nil hne
    obtain rfl := hrun c List.mem_cons_self
    exact apart_star hbefore tail
  obtain ⟨ls₁, stars, rfl, h₁, hstars⟩ := hseam'.exists_lexemes h₀
  obtain ⟨hall, hlength⟩ := lexemes_of_stars hstars hrun
  exact ⟨ls₁, stars, ls₂, rfl, h₁, h₂, hall, hlength⟩

theorem exists_stars_before (cs : List Char) :
    ∃ before stars, cs = before ++ stars ∧ (∀ c ∈ stars, c = '*') ∧
      before.getLast? ≠ some '*' := by
  induction cs using List.reverseRecOn with
  | nil => exact ⟨[], [], by simp⟩
  | append_singleton cs c ih =>
    by_cases hc : c = '*'
    · obtain ⟨before, stars, rfl, hstars, hlast⟩ := ih
      refine ⟨before, stars ++ [c], List.append_assoc .., ?_, hlast⟩
      exact List.forall_mem_append.mpr ⟨hstars, List.forall_mem_singleton.mpr hc⟩
    · exact ⟨cs ++ [c], [], by simp [hc]⟩

theorem exists_stars_after (ds : List Char) :
    ∃ stars after, ds = stars ++ after ∧ (∀ c ∈ stars, c = '*') ∧ after.head? ≠ some '*' := by
  induction ds with
  | nil => exact ⟨[], [], by simp⟩
  | cons d ds ih =>
    by_cases hd : d = '*'
    · obtain ⟨stars, after, rfl, hstars, hhead⟩ := ih
      exact ⟨d :: stars, after, rfl, List.forall_mem_cons.mpr ⟨hd, hstars⟩, hhead⟩
    · exact ⟨[], d :: ds, by simp [hd]⟩

theorem exists_star_last {cs : List Char} {ls : List Lexeme} (h : Lexemes (cs ++ ['*']) ls) :
    ∃ ls' l, ls = ls' ++ [l] ∧ l.IsStar := by
  obtain ⟨before, stars, rfl, hstars, hbefore⟩ := exists_stars_before cs
  have hrun : ∀ c ∈ stars ++ ['*'], c = '*' := by simpa [or_imp, forall_and] using hstars
  rw [List.append_assoc, ← List.append_nil (stars ++ ['*']), ← List.append_assoc] at h
  obtain ⟨ls₁, run, ls₂, rfl, -, h₂, hall, hlength⟩ :=
    lexemes_run h hrun (by simp) hbefore (by simp)
  obtain rfl := lexemes_nil_iff.mp h₂
  have hne : run ≠ [] := by
    rintro rfl
    simp at hlength
  refine ⟨ls₁ ++ run.dropLast, run.getLast hne, ?_, hall _ (List.getLast_mem hne)⟩
  rw [List.append_nil, List.append_assoc, List.dropLast_append_getLast]

theorem exists_star_head {ds : List Char} {ls : List Lexeme} (h : Lexemes ('*' :: ds) ls) :
    ∃ l ls', ls = l :: ls' ∧ l.IsStar := by
  obtain ⟨stars, after, rfl, hstars, hafter⟩ := exists_stars_after ds
  have hrun : ∀ c ∈ '*' :: stars, c = '*' := List.forall_mem_cons.mpr ⟨rfl, hstars⟩
  replace h : Lexemes ([] ++ ('*' :: stars) ++ after) ls := h
  obtain ⟨ls₁, run, ls₂, rfl, h₁, -, hall, hlength⟩ :=
    lexemes_run h hrun (by simp) (by simp) hafter
  obtain rfl := lexemes_nil_iff.mp h₁
  cases run with
  | nil => simp at hlength
  | cons l run => exact ⟨l, run ++ ls₂, rfl, hall l List.mem_cons_self⟩

/-- Blanks between two stars leave them side by side. -/
theorem not_starsApart_of_blanks {bs cs ds : List Char} {ls : List Lexeme}
    (hbs : ∀ c ∈ bs, Text.isBlank c = true)
    (h : Lexemes ((cs ++ ['*']) ++ ' ' :: (bs ++ '*' :: ds)) ls) : ¬ Grammar.StarsApart ls := by
  obtain ⟨ls₁, ls₂, rfl, h₁, h₂⟩ := (lexemes_append_blank_iff isBlank_space).mp h
  obtain ⟨ls₁, l, rfl, hl⟩ := exists_star_last h₁
  obtain ⟨l', ls₂, rfl, hl'⟩ := exists_star_head ((lexemes_blanks_append_iff hbs).mp h₂)
  rw [List.append_assoc]
  exact not_starsApart hl hl'

/-- Of three characters or more in a run of stars, two lexemes side by side are left. -/
theorem not_starsApart_of_run {cs ds : List Char} {ls : List Lexeme}
    (h : Lexemes (cs ++ '*' :: '*' :: '*' :: ds) ls) : ¬ Grammar.StarsApart ls := by
  obtain ⟨before, stars₁, rfl, hstars₁, hbefore⟩ := exists_stars_before cs
  obtain ⟨stars₂, after, rfl, hstars₂, hafter⟩ := exists_stars_after ds
  have hwhole : before ++ stars₁ ++ '*' :: '*' :: '*' :: (stars₂ ++ after) =
      before ++ (stars₁ ++ '*' :: '*' :: '*' :: stars₂) ++ after := by simp
  have hrun : ∀ c ∈ stars₁ ++ '*' :: '*' :: '*' :: stars₂, c = '*' := by
    simpa [or_imp, forall_and] using ⟨hstars₁, hstars₂⟩
  rw [hwhole] at h
  obtain ⟨ls₁, stars, ls₂, rfl, -, -, hstars, hlength⟩ :=
    lexemes_run h hrun (by simp) hbefore hafter
  have htwo : 2 ≤ stars.length := by
    simp only [List.length_append, List.length_cons] at hlength
    omega
  obtain ⟨l, l', rest, rfl⟩ : ∃ l l' rest, stars = l :: l' :: rest := by
    match stars, htwo with
    | l :: l' :: rest, _ => exact ⟨l, l', rest, rfl⟩
  simp only [List.forall_mem_cons] at hstars
  have hsplit : ls₁ ++ (l :: l' :: rest) ++ ls₂ = ls₁ ++ l :: l' :: (rest ++ ls₂) := by simp
  rw [hsplit]
  exact not_starsApart hstars.1 hstars.2.1

end Lexicon

/-- Of two characters side by side one is a caret, and the other a caret or a star. -/
def Clash (c d : Char) : Prop := c = '^' ∧ (d = '*' ∨ d = '^') ∨ c = '*' ∧ d = '^'

theorem head?_expandCarets_ne_star {cs : List Char} (hstar : cs.head? ≠ some '*')
    (hcaret : cs.head? ≠ some '^') : (expandCarets cs).head? ≠ some '*' := by
  cases cs with
  | nil => simp
  | cons c cs =>
    simp only [List.head?_cons, ne_eq, Option.some.injEq] at hstar hcaret
    rw [expandCarets_cons_of_ne hcaret]
    simpa using hstar

/-- Where no caret touches a star or another caret, blanks around it change no lexeme: its two stars
end where the blanks would stand. What was read of the text is kept in front of it, so that a star
there can be told from others. -/
theorem lexemes_spaceCarets_iff {before cs : List Char} {ls : List Lexeme}
    (hcs : cs.IsChain fun c d => ¬ Clash c d)
    (hseam : before.getLast? = some '*' → cs.head? ≠ some '^') :
    Lexemes (before ++ spaceCarets cs) ls ↔ Lexemes (before ++ expandCarets cs) ls := by
  induction cs generalizing before ls with
  | nil => rfl
  | cons c cs ih =>
    have htail := hcs.tail
    have hhead : ∀ d, cs.head? = some d → ¬ Clash c d := by
      intro d hd
      obtain ⟨cs, rfl⟩ := List.head?_eq_some_iff.mp hd
      exact (List.isChain_cons_cons.mp hcs).1
    by_cases hc : c = '^'
    · subst hc
      have hstar : cs.head? ≠ some '*' := fun h => hhead _ h (.inl ⟨rfl, .inl rfl⟩)
      have hcaret : cs.head? ≠ some '^' := fun h => hhead _ h (.inl ⟨rfl, .inr rfl⟩)
      have hbefore : Apart before ('*' :: '*' :: expandCarets cs) :=
        Lexicon.apart_star (fun hlast => hseam hlast rfl) _
      have hafter : Apart ['*', '*'] (expandCarets cs) :=
        Lexicon.apart_of_head_ne_star (head?_expandCarets_ne_star hstar hcaret) ['*']
      have hih : ∀ {ls}, Lexemes (spaceCarets cs) ls ↔ Lexemes (expandCarets cs) ls := by
        intro ls
        have h : Lexemes ([] ++ spaceCarets cs) ls ↔ Lexemes ([] ++ expandCarets cs) ls :=
          ih htail (by simp)
        exact h
      have hspaced : ∀ {ls}, Lexemes ('*' :: '*' :: ' ' :: spaceCarets cs) ls ↔
          Lexemes ('*' :: '*' :: expandCarets cs) ls := by
        intro ls
        rw [show '*' :: '*' :: ' ' :: spaceCarets cs = ['*', '*'] ++ ' ' :: spaceCarets cs from rfl,
          show '*' :: '*' :: expandCarets cs = ['*', '*'] ++ expandCarets cs from rfl,
          Lexicon.lexemes_append_blank_iff Lexicon.isBlank_space, hafter.lexemes_append_iff]
        simp only [hih]
      rw [spaceCarets_caret, expandCarets_caret,
        Lexicon.lexemes_append_blank_iff Lexicon.isBlank_space, hbefore.lexemes_append_iff]
      simp only [hspaced]
    · have hnext : (before ++ [c]).getLast? = some '*' → cs.head? ≠ some '^' := by
        intro hlast hcaret
        rw [List.getLast?_concat, Option.some.injEq] at hlast
        exact hhead _ hcaret (.inr ⟨hlast, rfl⟩)
      rw [spaceCarets_cons_of_ne hc, expandCarets_cons_of_ne hc, List.append_cons,
        List.append_cons before c (expandCarets cs)]
      exact ih htail hnext

/-- Where a caret touches a star or another caret, the text has three stars in a row. -/
theorem Clash.exists_expandCarets {c d : Char} (h : Clash c d) (ds : List Char) :
    ∃ after, expandCarets (c :: d :: ds) = '*' :: '*' :: '*' :: after := by
  rcases h with ⟨rfl, rfl | rfl⟩ | ⟨rfl, rfl⟩
  · exact ⟨expandCarets ds, by rw [expandCarets_caret, expandCarets_cons_of_ne (by decide)]⟩
  · exact ⟨'*' :: expandCarets ds, by rw [expandCarets_caret, expandCarets_caret]⟩
  · exact ⟨expandCarets ds, by rw [expandCarets_cons_of_ne (by decide), expandCarets_caret]⟩

/-- There the text with blanks around the carets has a star, blanks and another star. -/
theorem Clash.exists_spaceCarets {c d : Char} (h : Clash c d) (ds : List Char) :
    ∃ before bs after, (∀ c ∈ bs, Text.isBlank c = true) ∧
      spaceCarets (c :: d :: ds) = (before ++ ['*']) ++ ' ' :: (bs ++ '*' :: after) := by
  rcases h with ⟨rfl, rfl | rfl⟩ | ⟨rfl, rfl⟩
  · refine ⟨[' ', '*'], [], spaceCarets ds, by simp, ?_⟩
    rw [spaceCarets_caret, spaceCarets_cons_of_ne (by decide)]
    rfl
  · refine ⟨[' ', '*'], [' '], '*' :: ' ' :: spaceCarets ds,
      List.forall_mem_singleton.mpr (by decide), ?_⟩
    rw [spaceCarets_caret, spaceCarets_caret]
    rfl
  · refine ⟨[], [], '*' :: ' ' :: spaceCarets ds, by simp, ?_⟩
    rw [spaceCarets_cons_of_ne (by decide), spaceCarets_caret]
    rfl

theorem not_starsApart_expandCarets {cs ds : List Char} {c d : Char} {ls : List Lexeme}
    (h : Clash c d) (hls : Lexemes (expandCarets (cs ++ c :: d :: ds)) ls) :
    ¬ Grammar.StarsApart ls := by
  obtain ⟨after, hstars⟩ := h.exists_expandCarets ds
  rw [expandCarets_append, hstars] at hls
  exact Lexicon.not_starsApart_of_run hls

theorem not_starsApart_spaceCarets {cs ds : List Char} {c d : Char} {ls : List Lexeme}
    (h : Clash c d) (hls : Lexemes (spaceCarets (cs ++ c :: d :: ds)) ls) :
    ¬ Grammar.StarsApart ls := by
  obtain ⟨before, bs, after, hbs, hstars⟩ := h.exists_spaceCarets ds
  rw [spaceCarets_append, hstars, ← List.append_assoc, ← List.append_assoc] at hls
  exact Lexicon.not_starsApart_of_blanks hbs hls

namespace Expr

theorem starsApart_of_ofText {text : String} {t : Expr} (h : ofText text = .ok t) :
    ∃ ls, Lexemes (expandCarets text.toList) ls ∧ Grammar.StarsApart ls := by
  obtain ⟨ps, hls, hsentence, -⟩ := exists_sentence_of_ofText h
  exact ⟨_, hls, hsentence.starsApart⟩

/-- Blanks around the carets of a text change no tree, and make none where there was none. -/
theorem ofText_withSpacedCarets_iff (text : String) (t : Expr) :
    ofText (withSpacedCarets text) = .ok t ↔ ofText text = .ok t := by
  have hcarets := expandCarets_withSpacedCarets text
  by_cases hclean : text.toList.IsChain fun c d => ¬ Clash c d
  · have hlexemes : ∀ ls, Lexemes (spaceCarets text.toList) ls ↔
        Lexemes (expandCarets text.toList) ls := fun ls => by
      have h : Lexemes ([] ++ spaceCarets text.toList) ls ↔
          Lexemes ([] ++ expandCarets text.toList) ls := lexemes_spaceCarets_iff hclean (by simp)
      exact h
    constructor
    · refine ofText_eq_ok_congr fun ls hls => (hlexemes ls).mp ?_
      rwa [← hcarets]
    · refine ofText_eq_ok_congr fun ls hls => ?_
      rw [hcarets]
      exact (hlexemes ls).mpr hls
  · obtain ⟨cs, c, d, ds, hsplit, hclash⟩ :
        ∃ cs c d ds, text.toList = cs ++ c :: d :: ds ∧ Clash c d := by
      rw [List.isChain_iff_forall_rel_of_append_cons_cons] at hclean
      push Not at hclean
      obtain ⟨c, d, cs, ds, hsplit, hclash⟩ := hclean
      exact ⟨cs, c, d, ds, hsplit, hclash⟩
    constructor
    · intro h
      obtain ⟨ls, hls, hstars⟩ := starsApart_of_ofText h
      rw [hcarets, hsplit] at hls
      exact absurd hstars (not_starsApart_spaceCarets hclash hls)
    · intro h
      obtain ⟨ls, hls, hstars⟩ := starsApart_of_ofText h
      rw [hsplit] at hls
      exact absurd hstars (not_starsApart_expandCarets hclash hls)

end Expr

/-- A caret is an operator of its own, whatever stands next to it: the text and the same text with
two stars between blanks in the place of each caret have the same tree, and so the same value or
fault, or both are refused before there is a tree. -/
theorem evaluate_withSpacedCarets (text : String) :
    (∃ t, Expr.ofText text = .ok t ∧ Expr.ofText (withSpacedCarets text) = .ok t ∧
      evaluate text = t.evaluate ∧ evaluate (withSpacedCarets text) = t.evaluate) ∨
    ∃ refusal refusal', Expr.ofText text = .error refusal ∧
      Expr.ofText (withSpacedCarets text) = .error refusal' ∧
      evaluate text = .error refusal ∧ evaluate (withSpacedCarets text) = .error refusal' := by
  have htree := Expr.ofText_withSpacedCarets_iff text
  rw [evaluate_eq_ofText, evaluate_eq_ofText]
  cases htext : Expr.ofText text with
  | ok t =>
    have hspaced := (htree t).mpr htext
    exact .inl ⟨t, rfl, hspaced, rfl, by rw [hspaced]; rfl⟩
  | error refusal =>
    cases hspaced : Expr.ofText (withSpacedCarets text) with
    | ok t =>
      rw [(htree t).mp hspaced] at htext
      cases htext
    | error refusal' => exact .inr ⟨refusal, refusal', rfl, rfl, rfl, rfl⟩

/-- A caret before a sign is a power in both texts; one behind a star is refused in both. -/
theorem evaluate_withSpacedCarets_beside_star :
    withSpacedCarets "e^-pi" = "e ** -pi" ∧
    (∃ t, Expr.ofText "e^-pi" = .ok t ∧ Expr.ofText "e ** -pi" = .ok t ∧
      evaluate "e^-pi" = t.evaluate ∧ evaluate "e ** -pi" = t.evaluate) ∧
    withSpacedCarets "e*^pi" = "e* ** pi" ∧
    ∃ refusal refusal', Expr.ofText "e*^pi" = .error refusal ∧
      Expr.ofText "e* ** pi" = .error refusal' ∧
      evaluate "e*^pi" = .error refusal ∧ evaluate "e* ** pi" = .error refusal' := by
  have hsign : withSpacedCarets "e^-pi" = "e ** -pi" := by decide +kernel
  have hstar : withSpacedCarets "e*^pi" = "e* ** pi" := by decide +kernel
  have htree : Expr.ofText "e^-pi" =
      .ok (.binary .pow (.name "e") (.signed .minus (.name "pi"))) := by with_unfolding_all rfl
  have hrefused : Expr.ofText "e*^pi" = .error (.malformed 3) := by with_unfolding_all rfl
  refine ⟨hsign, ?_, hstar, ?_⟩
  · rcases evaluate_withSpacedCarets "e^-pi" with h | ⟨refusal, refusal', h, -⟩
    · rwa [hsign] at h
    · rw [htree] at h
      cases h
  · rcases evaluate_withSpacedCarets "e*^pi" with ⟨t, h, -⟩ | h
    · rw [hrefused] at h
      cases h
    · rwa [hstar] at h

end Reckoner
