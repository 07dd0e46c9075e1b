import Reckoner.Proofs.Window.Spacing

/-!
# Exponents made with buttons

A constant is set apart from a digit before it, so that its letters are not taken for the exponent
of a number. A number may also end in a point, and nothing is put between the point and a constant:
the constant `e` and a digit after it are then read as the exponent. Whatever buttons are pressed,
from the empty entry on and with deleting in between, this is the only way to an exponent, because
no digit stands right before the letter, no sign right after it, and there is no capital.
-/
namespace Reckoner

namespace Lexicon

variable {cs chars : List Char} {d : Decimal} {l : Lexeme}

/-- The characters of a number that has no exponent. -/
def Plain (cs : List Char) : Prop := ∀ c ∈ cs, Digit c ∨ c = '.'

/-- No number among the pieces of a text has an exponent. -/
def NumbersPlain (pieces : List Piece) : Prop :=
  ∀ p ∈ pieces, (∃ v, p.token.lexeme = .number v) → Plain p.chars

theorem Mantissa.plain {ds fs : List Char} (h : Mantissa cs ds fs) : Plain cs := by
  intro c hc
  cases h with
  | whole hds => exact .inl (hds c hc)
  | point hds hfs =>
    simp only [List.mem_append, List.mem_cons] at hc
    rcases hc with hc | rfl | hc
    · exact .inl (hds c hc)
    · exact .inr rfl
    · exact .inl (hfs c hc)

theorem Mantissa.ne_nil {ds fs : List Char} (h : Mantissa cs ds fs) : cs ≠ [] := by
  cases h with
  | whole _ hne => exact hne
  | point => simp

/-- A number that ends in its point has no exponent. -/
theorem Number.mantissa_of_point (h : Number (cs ++ ['.']) d) :
    ∃ ds fs, Mantissa (cs ++ ['.']) ds fs := by
  generalize hchars : cs ++ ['.'] = chars at h
  obtain ⟨hm, he⟩ := h
  cases he with
  | absent =>
    rw [List.append_nil]
    exact ⟨_, _, hm⟩
  | present _ _ hds hne =>
    have hlast := congrArg List.getLast? hchars
    rw [List.getLast?_concat, ← List.append_assoc, List.getLast?_append_of_ne_nil _ hne] at hlast
    exact absurd (hds '.' (List.mem_of_getLast? hlast.symm)) (by decide)

/-- A number that has an exponent: the character before its mark, the mark, a sign and a digit. -/
theorem Number.exists_exponent (h : Number cs d) (hplain : ¬ Plain cs) :
    ∃ a mark sign digit, a :: mark :: (sign : Option Char).toList ++ [digit] <:+: cs ∧
      (Digit a ∨ a = '.') ∧ (mark = 'e' ∨ mark = 'E') ∧
      (sign = none ∨ sign = some '+' ∨ sign = some '-') ∧ Digit digit := by
  obtain @⟨m, _, _, _, _, hm, he⟩ := h
  cases he with
  | absent =>
    rw [List.append_nil] at hplain
    exact absurd hm.plain hplain
  | @present mark sign ds hmark hsign hds hne =>
    obtain ⟨digit, ds, rfl⟩ := List.exists_cons_of_ne_nil hne
    have hsplit := List.dropLast_append_getLast hm.ne_nil
    refine ⟨m.getLast hm.ne_nil, mark, sign, digit, ⟨m.dropLast, ds, ?_⟩,
      hm.plain _ (List.getLast_mem hm.ne_nil), hmark, hsign, hds digit List.mem_cons_self⟩
    conv_rhs => rw [← hsplit]
    simp

theorem Spells.exists_number {v : Float} (h : Spells chars (.number v)) : ∃ d, Number chars d := by
  obtain ⟨h⟩ := h
  exact ⟨_, h⟩

theorem Spells.exists_number_of_point (h : Spells chars l) (hpoint : '.' ∈ chars) :
    (∃ d, Number chars d) ∧ ∃ v, l = .number v := by
  cases h with
  | number h => exact ⟨⟨_, h⟩, _, rfl⟩
  | name hstart hparts =>
    exact absurd ((List.forall_mem_cons (p := NamePart)).mpr ⟨.inl hstart, hparts⟩ '.' hpoint)
      (by decide)
  | _ => simp at hpoint

/-- A number that ends in its point goes on with the letter and a digit, if they follow. -/
theorem not_longest_of_point {before after : List Char} {digit : Char} (hdigit : Digit digit) :
    ¬ Longest cs (before ++ ['.']) l ('e' :: digit :: after) := by
  intro hlongest
  obtain ⟨⟨d, hnumber⟩, -⟩ := hlongest.spells.exists_number_of_point (by simp)
  obtain ⟨ds, fs, hm⟩ := hnumber.mantissa_of_point
  have he : Exponent ('e' :: (none : Option Char).toList ++ [digit]) _ :=
    .present (.inl rfl) (.inl rfl) (List.forall_mem_singleton.mpr hdigit) (by simp)
  have hle := hlongest.length_le _ after _ (by rw [hlongest.eq_append]; simp) (.number (.mk hm he))
  simp at hle

/-- A point, the letter and a digit side by side are in one number: no lexeme ends between the point
and the letter or behind the letter, and one that ends before the point leaves all three to the
next. -/
theorem Cut.not_numbersPlain {position : Nat} {rest : List Char} {pieces : List Piece}
    {digit : Char} (h : Cut position cs pieces rest) (hrest : rest = []) (hdigit : Digit digit)
    (hstands : ['.', 'e', digit] <:+: cs) : ¬ NumbersPlain pieces := by
  induction h with
  | stop =>
    rw [hrest, List.infix_nil] at hstands
    cases hstands
  | @blank _ c _ _ _ hc _ ih =>
    rcases List.infix_cons_iff.mp hstands with hprefix | hstands
    · obtain rfl := (List.cons_prefix_cons.mp hprefix).1
      exact absurd hc (by decide)
    · exact ih hrest hstands
  | @lexeme position cs chars l following pieces rest hlongest _ ih =>
    intro hplain
    obtain ⟨hfirst, hlater⟩ := List.forall_mem_cons.mp hplain
    have hmark : '.' ∈ chars → 'e' ∉ chars := fun hpoint hmark =>
      absurd (hfirst (hlongest.spells.exists_number_of_point hpoint).2 'e' hmark) (by decide)
    have hnone : ¬ ['.', 'e', digit] <:+: following := fun hstands => ih hrest hstands hlater
    rw [hlongest.eq_append] at hstands
    rcases List.infix_append_iff.mp hstands with hstands | hstands | ⟨x, y, hxy, hx, hy⟩
    · exact hmark (hstands.subset (by simp)) (hstands.subset (by simp))
    · exact hnone hstands
    · rcases x with _ | ⟨a, _ | ⟨b, x⟩⟩
      · obtain rfl : ['.', 'e', digit] = y := hxy
        exact hnone hy.isInfix
      · cases hxy
        obtain ⟨before, rfl⟩ := hx
        obtain ⟨after, rfl⟩ := hy
        exact not_longest_of_point hdigit hlongest
      · simp only [List.cons_append, List.cons.injEq] at hxy
        obtain ⟨rfl, rfl, -⟩ := hxy
        exact hmark (hx.subset (by simp)) (hx.subset (by simp))

end Lexicon

theorem eq_nil_of_prefix_cons {c : Char} {word cs : List Char} (hc : c ∉ word)
    (h : word <+: c :: cs) : word = [] := by
  rcases List.prefix_cons_iff.mp h with rfl | ⟨word, rfl, -⟩
  · rfl
  · exact absurd List.mem_cons_self hc

theorem prefix_of_prefix_expandCarets {word cs : List Char} (hstar : '*' ∉ word)
    (h : word <+: expandCarets cs) : word <+: cs := by
  induction cs generalizing word with
  | nil => exact h
  | cons c cs ih =>
    by_cases hc : c = '^'
    · subst hc
      rw [expandCarets_caret] at h
      rw [eq_nil_of_prefix_cons hstar h]
      exact List.nil_prefix
    · rw [expandCarets_cons_of_ne hc] at h
      rcases List.prefix_cons_iff.mp h with rfl | ⟨word, rfl, hword⟩
      · exact List.nil_prefix
      · rw [List.mem_cons, not_or] at hstar
        exact List.cons_prefix_cons.mpr ⟨rfl, ih hstar.2 hword⟩

/-- A word without stars and carets stands in a text where it does with the carets replaced. -/
theorem infix_expandCarets_iff {word : List Char} (hstar : '*' ∉ word) (hcaret : '^' ∉ word)
    (cs : List Char) : word <:+: expandCarets cs ↔ word <:+: cs := by
  constructor
  · intro h
    induction cs with
    | nil => exact h
    | cons c cs ih =>
      by_cases hc : c = '^'
      · subst hc
        rw [expandCarets_caret, List.infix_cons_iff, List.infix_cons_iff] at h
        rcases h with hprefix | hprefix | hstands
        · rw [eq_nil_of_prefix_cons hstar hprefix]
          exact List.nil_infix
        · rw [eq_nil_of_prefix_cons hstar hprefix]
          exact List.nil_infix
        · exact (ih hstands).trans (List.suffix_cons '^' cs).isInfix
      · rw [expandCarets_cons_of_ne hc, List.infix_cons_iff, ← expandCarets_cons_of_ne hc] at h
        rcases h with hprefix | hstands
        · exact (prefix_of_prefix_expandCarets hstar hprefix).isInfix
        · exact (ih hstands).trans (List.suffix_cons c cs).isInfix
  · rintro ⟨before, after, rfl⟩
    rw [expandCarets_append, expandCarets_append, expandCarets_of_not_mem hcaret]
    exact List.infix_append _ _ _

namespace Window

open Lexicon (Digit NamePart Cut Piece Plain NumbersPlain)
open Text (trimSpaces)

/-- How two characters stand side by side in an entry made with buttons: the mark of an exponent is
no capital and does not follow a digit, and no sign follows it. -/
def Neighbours (a b : Char) : Prop :=
  b ≠ 'E' ∧ (b = 'e' → ¬ Digit a) ∧ (a = 'e' → b ≠ '+' ∧ b ≠ '-')

instance : DecidableRel Neighbours := fun a b =>
  inferInstanceAs (Decidable (b ≠ 'E' ∧ (b = 'e' → ¬ Digit a) ∧ (a = 'e' → b ≠ '+' ∧ b ≠ '-')))

variable {label : String} {i : Insertion} {entry : List Char}

theorem neighbours_of_not_mem {b : Char} (hb : b ∉ ['e', 'E', '+', '-']) (a : Char) :
    Neighbours a b := by
  simp only [List.mem_cons, List.not_mem_nil, or_false, not_or] at hb
  obtain ⟨hmark, hcapital, hplus, hminus⟩ := hb
  exact ⟨hcapital, fun h => absurd h hmark, fun _ => ⟨hplus, hminus⟩⟩

theorem isChain_concat_space (h : entry.IsChain Neighbours) :
    (entry ++ [' ']).IsChain Neighbours := by
  refine List.isChain_append.mpr ⟨h, List.isChain_singleton _, fun a _ b hb => ?_⟩
  obtain rfl : ' ' = b := by simpa using hb
  exact neighbours_of_not_mem (by decide) a

theorem prefix_trimSpaces (cs : List Char) : trimSpaces cs <+: cs := List.rdropWhile_prefix _ cs

theorem isChain_front (h : entry.IsChain Neighbours) (i : Insertion) :
    (i.front entry).IsChain Neighbours := by
  have htrim := h.prefix (prefix_trimSpaces entry)
  unfold Insertion.front
  cases i.spacing with
  | joined => exact h
  | word | opening =>
    simp only
    split
    · exact isChain_concat_space h
    · exact h
  | operator =>
    simp only
    split
    · exact .nil
    · exact isChain_concat_space htrim
  | closing => exact htrim

/-- What a button enters has no exponents in it. -/
theorem Enters.isChain_text (h : Enters label i) :
    (i.text ++ i.spacing.after).IsChain Neighbours := by
  have hnames : ∀ name ∈ Registry.functionNames ++ Registry.constantNames,
      (name.toList ++ ['(']).IsChain Neighbours := by decide
  cases h with
  | digit => exact List.isChain_singleton _
  | constant hname =>
    simp only [Spacing.after, List.append_nil]
    exact (hnames _ (List.mem_append_right _ hname)).left_of_append
  | function hname =>
    simp only [Spacing.after, List.append_nil]
    exact hnames _ (List.mem_append_left _ hname)
  | operator => exact isChain_concat_space (List.isChain_singleton _)
  | leftParen | rightParen | comma => decide

/-- No exponent starts at the seam before what a button enters. -/
theorem Enters.neighbours_front (h : Enters label i) {a b : Char}
    (ha : (i.front entry).getLast? = some a)
    (hb : (i.text ++ i.spacing.after).head? = some b) : Neighbours a b := by
  cases h with
  | digit _ hc =>
    cases hb
    refine neighbours_of_not_mem ?_ a
    rcases hc with hc | rfl
    · have hnot := ((Lexicon.isDigit_iff b).mp hc).not_mem
      simp only [List.mem_cons, List.not_mem_nil, or_false, not_or] at hnot ⊢
      tauto
    · decide
  | constant hname =>
    have hall : Registry.constantNames.all fun name =>
        name.toList.head?.all (· ∉ ['E', '+', '-']) := by decide
    have hhead := List.all_eq_true.mp hall _ hname
    simp only [Spacing.after, List.append_nil] at hb
    rw [hb] at hhead
    simp at hhead
    obtain ⟨hcapital, hsigns⟩ := hhead
    refine ⟨hcapital, fun _ => ?_, fun _ => hsigns⟩
    rcases last_front_word ha with rfl | ⟨-, hdigit⟩
    · decide
    · exact hdigit
  | function hname =>
    have hall : Registry.functionNames.all fun name =>
        (name.toList ++ ['(']).head?.all (· ∉ ['e', 'E', '+', '-']) := by decide
    have hhead := List.all_eq_true.mp hall _ hname
    simp only [Spacing.after, List.append_nil] at hb
    rw [hb] at hhead
    exact neighbours_of_not_mem (by simpa using hhead) a
  | operator _ hc =>
    cases hb
    obtain rfl : a = ' ' := by
      rcases front_operator_cases [b] entry with hfront | ⟨before, hfront⟩
      · rw [hfront] at ha
        cases ha
      · rw [hfront, List.getLast?_concat] at ha
        exact (Option.some.inj ha).symm
    simp only [List.mem_cons, List.not_mem_nil, or_false] at hc
    rcases hc with rfl | rfl | rfl | rfl | rfl <;> decide
  | leftParen | rightParen | comma =>
    cases hb
    exact neighbours_of_not_mem (by decide) a

theorem Enters.isChain_apply (h : Enters label i) (hentry : entry.IsChain Neighbours) :
    (i.apply entry).IsChain Neighbours := by
  rw [i.apply_eq, List.append_assoc]
  exact List.isChain_append.mpr
    ⟨isChain_front hentry i, h.isChain_text, fun _ ha _ hb => h.neighbours_front ha hb⟩

theorem prefix_deleteLast (entry : List Char) : deleteLast entry <+: entry := by
  have hdrop : dropSymbol (trimSpaces entry) <+: trimSpaces entry := by
    unfold dropSymbol
    split
    · exact List.take_prefix _ _
    · exact List.dropLast_prefix _
  exact ((prefix_trimSpaces _).trans hdrop).trans (prefix_trimSpaces entry)

/-- A button that changes the entry by inserting or by deleting. -/
def Button.Edits (b : Button) : Prop :=
  b = .delete ∨ ∃ label i, b = .insert i ∧ (label, b) ∈ Button.all

theorem isChain_press {w : Window} {b : Button} (hb : b.Edits)
    (hw : w.entry.toList.IsChain Neighbours) :
    (w.step (.press b)).entry.toList.IsChain Neighbours := by
  rcases hb with rfl | ⟨label, i, rfl, hbutton⟩
  · rw [toList_entry_delete]
    exact hw.prefix (prefix_deleteLast _)
  · rw [toList_entry_insert]
    exact (enters_of_mem hbutton).isChain_apply hw

theorem isChain_foldl_press {buttons : List Button} (hbuttons : ∀ b ∈ buttons, b.Edits)
    {w : Window} (hw : w.entry.toList.IsChain Neighbours) :
    ((buttons.map Event.press).foldl step w).entry.toList.IsChain Neighbours := by
  induction buttons generalizing w with
  | nil => exact hw
  | cons b buttons ih =>
    rw [List.forall_mem_cons] at hbuttons
    exact ih hbuttons.2 (isChain_press hbuttons.1 hw)

/-- However the entry was made with buttons, the characters of it are so side by side. -/
theorem isChain_run {buttons : List Button} (hbuttons : ∀ b ∈ buttons, b.Edits) :
    (run (buttons.map Event.press)).entry.toList.IsChain Neighbours :=
  isChain_foldl_press hbuttons .nil

/-- Where characters stand so side by side, an exponent of a number is the letter behind a point and
before a digit. -/
theorem exists_infix_of_not_plain {chars : List Char} {d : Decimal} (h : Lexicon.Number chars d)
    (hplain : ¬ Plain chars) (hchars : chars <:+: expandCarets entry)
    (hentry : entry.IsChain Neighbours) :
    ∃ digit, Digit digit ∧ ['.', 'e', digit] <:+: entry := by
  obtain ⟨a, mark, sign, digit, hstands, ha, hmark, hsign, hdigit⟩ := h.exists_exponent hplain
  have hexponent : a :: mark :: sign.toList ++ [digit] <:+: entry := by
    have hmem : ∀ c ∈ a :: mark :: sign.toList ++ [digit], NamePart c ∨ c ∈ ['.', '+', '-'] :=
      fun c hc => h.mem_cases (hstands.subset hc)
    refine (infix_expandCarets_iff ?_ ?_ entry).mp (hstands.trans hchars)
    · exact fun hstar => absurd (hmem '*' hstar) (by decide)
    · exact fun hcaret => absurd (hmem '^' hcaret) (by decide)
  have hchain := hentry.infix hexponent
  obtain ⟨hfirst, hrest⟩ := List.isChain_cons_cons.mp hchain
  obtain rfl : mark = 'e' := hmark.resolve_right hfirst.1
  obtain rfl : a = '.' := ha.resolve_left (hfirst.2.1 rfl)
  rcases hsign with rfl | rfl | rfl
  · exact ⟨digit, hdigit, hexponent⟩
  · exact absurd rfl ((List.isChain_cons_cons.mp hrest).1.2.2 rfl).1
  · exact absurd rfl ((List.isChain_cons_cons.mp hrest).1.2.2 rfl).2

/-- Of an entry made with buttons that insert and delete, every number is digits and a point,
exactly if nowhere in it the constant `e` stands behind a point and before a digit. -/
theorem numbers_plain_iff {buttons : List Button} (hbuttons : ∀ b ∈ buttons, b.Edits)
    {tokens : List Token}
    (hscan : Token.scan (expandCarets (run (buttons.map Event.press)).entry.toList) = .ok tokens) :
    ∃ pieces, Cut 0 (expandCarets (run (buttons.map Event.press)).entry.toList) pieces [] ∧
      pieces.map Piece.token = tokens ∧
      (NumbersPlain pieces ↔ ∀ digit, Digit digit →
        ¬ ['.', 'e', digit] <:+: (run (buttons.map Event.press)).entry.toList) := by
  obtain ⟨pieces, hcut, htokens⟩ := Token.exists_cut_of_scan hscan
  refine ⟨pieces, hcut, htokens, ?_, ?_⟩
  · intro hplain digit hdigit hstands
    have hword : ∀ c ∈ ['.', 'e', digit], NamePart c ∨ c = '.' := by
      simp [NamePart, hdigit]
      decide
    have hstar : '*' ∉ ['.', 'e', digit] := fun hstar => absurd (hword '*' hstar) (by decide)
    have hcaret : '^' ∉ ['.', 'e', digit] := fun hcaret => absurd (hword '^' hcaret) (by decide)
    have hstands := (infix_expandCarets_iff hstar hcaret _).mpr hstands
    exact hcut.not_numbersPlain rfl hdigit hstands hplain
  · intro hnone p hp hnumber
    by_contra hplain
    obtain ⟨v, hv⟩ := hnumber
    obtain ⟨d, hd⟩ := (hv ▸ hcut.spells p hp).exists_number
    obtain ⟨done, hdone, hspans⟩ := hcut.spans
    obtain ⟨before, after, hplace, -⟩ := hspans.place p hp
    have hchars : p.chars <:+: expandCarets (run (buttons.map Event.press)).entry.toList := by
      rw [hdone, List.append_nil, hplace]
      exact List.infix_append _ _ _
    obtain ⟨digit, hdigit, hstands⟩ :=
      exists_infix_of_not_plain hd hplain hchars (isChain_run hbuttons)
    exact hnone digit hdigit hstands

/-- The buttons with these labels. -/
def withLabels (labels : List String) : List Button := labels.filterMap Button.withLabel?

theorem edits_of_withLabel? {label : String} {i : Insertion}
    (h : Button.withLabel? label = some (.insert i)) : Button.Edits (.insert i) := by
  obtain ⟨⟨name, b⟩, hfind, rfl⟩ := Option.map_eq_some_iff.mp h
  exact .inr ⟨name, i, rfl, List.mem_of_find?_eq_some hfind⟩

/-- A constant after a digit and a digit after the constant: the constant is a name. -/
theorem numbers_plain_after_digit :
    (∀ b ∈ withLabels ["2", "e", "5"], b.Edits) ∧
    (run ((withLabels ["2", "e", "5"]).map Event.press)).entry = "2 e5" ∧
    ∃ tokens, Token.scan
        (expandCarets (run ((withLabels ["2", "e", "5"]).map Event.press)).entry.toList) =
          .ok tokens ∧
      ∃ pieces, Cut 0 (expandCarets
          (run ((withLabels ["2", "e", "5"]).map Event.press)).entry.toList) pieces [] ∧
        pieces.map Piece.token = tokens ∧ NumbersPlain pieces := by
  have hlist : withLabels ["2", "e", "5"] =
      [.insert ⟨['2'], .joined⟩, .insert ⟨['e'], .word⟩, .insert ⟨['5'], .joined⟩] := by decide
  have hbuttons : ∀ b ∈ withLabels ["2", "e", "5"], b.Edits := by
    rw [hlist]
    simp only [List.forall_mem_cons]
    exact ⟨edits_of_withLabel? (show Button.withLabel? "2" = _ by decide),
      edits_of_withLabel? (show Button.withLabel? "e" = _ by decide),
      edits_of_withLabel? (show Button.withLabel? "5" = _ by decide), nofun⟩
  have hentry : (run ((withLabels ["2", "e", "5"]).map Event.press)).entry = "2 e5" := by decide
  have htext : expandCarets "2 e5".toList = ['2'] ++ ' ' :: ['e', '5'] := by decide
  have hnumber : Lexicon.Number (['2'] ++ []) _ :=
    .mk (.whole (List.forall_mem_singleton.mpr (by decide)) (by simp)) .absent
  have hname : Lexicon.Spells ['e', '5'] (.name (.ofList ['e', '5'])) :=
    .name (by decide) (List.forall_mem_singleton.mpr (by decide))
  have hls := (Lexicon.lexemes_append_blank_iff Lexicon.isBlank_space).mpr
    ⟨_, _, rfl, (Lexicon.Spells.number hnumber).lexemes, hname.lexemes⟩
  obtain ⟨tokens, hscan, -⟩ := Lexicon.lexemes_iff_scan.mp hls
  rw [List.append_nil, ← htext, ← hentry] at hscan
  obtain ⟨pieces, hcut, htokens, hplain⟩ := numbers_plain_iff hbuttons hscan
  refine ⟨hbuttons, hentry, tokens, hscan, pieces, hcut, htokens,
    hplain.mpr fun digit _ hstands => ?_⟩
  rw [hentry] at hstands
  exact absurd (hstands.subset List.mem_cons_self) (by decide)

/-- A constant after a point and a digit after the constant: all are one number. -/
theorem constant_joins_number :
    (∀ b ∈ withLabels ["2", ".", "e", "5"], b.Edits) ∧
    (run ((withLabels ["2", ".", "e", "5"]).map Event.press)).entry = "2.e5" ∧
    ∃ p, Cut 0 (expandCarets (run ((withLabels ["2", ".", "e", "5"]).map Event.press)).entry.toList)
        [p] [] ∧
      Token.scan (expandCarets
        (run ((withLabels ["2", ".", "e", "5"]).map Event.press)).entry.toList) = .ok [p.token] ∧
      p.token.lexeme = .number (Binary64.nearest 200000) ∧ ¬ NumbersPlain [p] := by
  have hlist : withLabels ["2", ".", "e", "5"] = [.insert ⟨['2'], .joined⟩,
      .insert ⟨['.'], .joined⟩, .insert ⟨['e'], .word⟩, .insert ⟨['5'], .joined⟩] := by decide
  have hbuttons : ∀ b ∈ withLabels ["2", ".", "e", "5"], b.Edits := by
    rw [hlist]
    simp only [List.forall_mem_cons]
    exact ⟨edits_of_withLabel? (show Button.withLabel? "2" = _ by decide),
      edits_of_withLabel? (show Button.withLabel? "." = _ by decide),
      edits_of_withLabel? (show Button.withLabel? "e" = _ by decide),
      edits_of_withLabel? (show Button.withLabel? "5" = _ by decide), nofun⟩
  have hentry : (run ((withLabels ["2", ".", "e", "5"]).map Event.press)).entry = "2.e5" := by
    decide
  have htext : expandCarets "2.e5".toList = ['2', '.', 'e', '5'] := by decide
  have hmantissa : Lexicon.Mantissa (['2'] ++ '.' :: []) ['2'] [] :=
    .point (List.forall_mem_singleton.mpr (by decide)) nofun (by simp)
  have hexponent : Lexicon.Exponent ('e' :: (none : Option Char).toList ++ ['5']) 5 :=
    .present (.inl rfl) (.inl rfl) (List.forall_mem_singleton.mpr (by decide)) (by simp)
  have hspells := Lexicon.Spells.number (.mk hmantissa hexponent)
  have hcut : Cut 0 ['2', '.', 'e', '5'] _ [] := .lexeme hspells.longest .stop
  have hscan := hcut.scanFrom_eq_ok
  have hvalue : Decimal.value ⟨Nat.ofDigitChars 10 (['2'] ++ []) 0, 5 - ([] : List Char).length⟩ =
      200000 := by
    have hdigits : Nat.ofDigitChars 10 ['2'] 0 = 2 := by decide
    norm_num [Decimal.value, hdigits]
  rw [← htext, ← hentry] at hcut hscan
  refine ⟨hbuttons, hentry, _, hcut, hscan, ?_, fun hplain => ?_⟩
  · rw [← hvalue]
  · exact absurd (hplain _ List.mem_cons_self ⟨_, rfl⟩ 'e' (by simp)) (by decide)

end Window
end Reckoner
