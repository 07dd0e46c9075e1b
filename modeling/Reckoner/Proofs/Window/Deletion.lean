import Mathlib.Data.List.DropRight
import Mathlib.Logic.Function.Iterate
import Reckoner.Proofs.Token.Seams
import Reckoner.Window.Basic

/-!
# Deleting what buttons entered

What the buttons of the window enter is of seven kinds, told apart by the text and its spacing. A
button of each kind, pressed at any entry, is taken back by deleting once, but for the spaces at the
end of the entry. Deleting goes by the text alone, so for each kind it is shown which whole names
the new entry can end in: after a name the name itself and no other one, after any other symbol
none, because an opening parenthesis that follows a letter is set apart from it.
-/
namespace Reckoner.Window

open Text (trimSpaces)

/-- What a button with this label enters. -/
inductive Enters : String → Insertion → Prop where
  | digit {label c} (hlabel : label.toList = [c]) (hc : c.isDigit = true ∨ c = '.') :
      Enters label ⟨[c], .joined⟩
  | constant {name} (h : name ∈ Registry.constantNames) : Enters name ⟨name.toList, .word⟩
  | function {name} (h : name ∈ Registry.functionNames) :
      Enters name ⟨name.toList ++ ['('], .opening⟩
  | leftParen : Enters "(" ⟨['('], .opening⟩
  | operator {label c} (hlabel : label.toList = [c]) (hc : c ∈ ['+', '-', '*', '/', '^']) :
      Enters label ⟨[c], .operator⟩
  | rightParen : Enters ")" ⟨[')'], .closing⟩
  | comma : Enters "," ⟨[',', ' '], .closing⟩

theorem enters_of_mem_digits {label : String} {i : Insertion}
    (h : (label, Button.insert i) ∈ Button.digits) : Enters label i := by
  obtain ⟨label, hlabel, heq⟩ := List.mem_map.mp h
  cases heq
  simp only [List.mem_cons, List.not_mem_nil, or_false] at hlabel
  rcases hlabel with rfl | rfl | rfl | rfl | rfl | rfl | rfl | rfl | rfl | rfl | rfl <;>
    exact .digit rfl (by decide)

theorem enters_of_mem_operators {label : String} {i : Insertion}
    (h : (label, Button.insert i) ∈ Button.operators) : Enters label i := by
  obtain ⟨label, hlabel, heq⟩ := List.mem_map.mp h
  cases heq
  simp only [List.mem_cons, List.not_mem_nil, or_false] at hlabel
  rcases hlabel with rfl | rfl | rfl | rfl | rfl <;> exact .operator rfl (by decide)

/-- A button of the window enters text of one of the seven kinds. -/
theorem enters_of_mem {label : String} {i : Insertion}
    (h : (label, Button.insert i) ∈ Button.all) : Enters label i := by
  simp only [Button.all, List.mem_append] at h
  rcases h with ((((h | h) | h) | h) | h) | h
  · simp [Button.actions] at h
  · simp only [Button.parentheses, Button.labelled, List.mem_cons, List.not_mem_nil, or_false,
      Prod.mk.injEq, Button.insert.injEq] at h
    obtain ⟨rfl, rfl⟩ | ⟨rfl, rfl⟩ | ⟨rfl, rfl⟩ := h
    · exact .leftParen
    · exact .rightParen
    · exact .comma
  · exact enters_of_mem_operators h
  · exact enters_of_mem_digits h
  · obtain ⟨name, hname, heq⟩ := List.mem_map.mp h
    cases heq
    exact .constant hname
  · obtain ⟨name, hname, heq⟩ := List.mem_map.mp h
    cases heq
    exact .function hname

/-- The entry as it stands before the text of an insertion. -/
def Insertion.front (i : Insertion) (entry : List Char) : List Char :=
  match i.spacing with
  | .joined => entry
  | .word => if entry.getLast?.any closesNumber then entry ++ [' '] else entry
  | .opening => if (lastVisible? entry).any closesOperand then entry ++ [' '] else entry
  | .operator => if trimSpaces entry = [] then [] else trimSpaces entry ++ [' ']
  | .closing => trimSpaces entry

/-- The space that follows an operator. -/
def Spacing.after : Spacing → List Char
  | operator => [' ']
  | _ => []

theorem Insertion.apply_eq (i : Insertion) (entry : List Char) :
    i.apply entry = i.front entry ++ i.text ++ i.spacing.after := by
  unfold apply front
  cases i.spacing with
  | joined | closing => simp [Spacing.after]
  | word | opening => simp only [Spacing.after]; split <;> simp
  | operator => simp only [Spacing.after]; split <;> simp_all

theorem trimSpaces_trimSpaces (cs : List Char) : trimSpaces (trimSpaces cs) = trimSpaces cs :=
  List.rdropWhile_idempotent _ cs

theorem trimSpaces_concat_space (cs : List Char) : trimSpaces (cs ++ [' ']) = trimSpaces cs :=
  List.rdropWhile_concat_pos _ cs ' ' rfl

theorem trimSpaces_concat {c : Char} (h : c ≠ ' ') (cs : List Char) :
    trimSpaces (cs ++ [c]) = cs ++ [c] :=
  List.rdropWhile_concat_neg _ cs c (by simpa using h)

/-- An insertion changes what stands before it by spaces at the end only. -/
theorem Insertion.trimSpaces_front (i : Insertion) (entry : List Char) :
    trimSpaces (i.front entry) = trimSpaces entry := by
  unfold front
  cases i.spacing with
  | joined => rfl
  | word | opening =>
    simp only
    split
    · exact trimSpaces_concat_space entry
    · rfl
  | operator =>
    simp only
    split
    · next hnil => rw [hnil]; rfl
    · rw [trimSpaces_concat_space, trimSpaces_trimSpaces]
  | closing => exact trimSpaces_trimSpaces entry

/-- The characters of a text but its spaces. -/
def withoutSpaces (cs : List Char) : List Char := cs.filter (· ≠ ' ')

theorem withoutSpaces_append (cs ds : List Char) :
    withoutSpaces (cs ++ ds) = withoutSpaces cs ++ withoutSpaces ds := List.filter_append ..

theorem withoutSpaces_trimSpaces (cs : List Char) :
    withoutSpaces (trimSpaces cs) = withoutSpaces cs := by
  induction cs using List.reverseRecOn with
  | nil => rfl
  | append_singleton cs c ih =>
    by_cases hc : c = ' '
    · rw [hc, trimSpaces_concat_space, ih, withoutSpaces_append]
      exact (List.append_nil _).symm
    · rw [trimSpaces_concat hc]

/-- An insertion puts its text behind the entry, and changes nothing else but spaces. -/
theorem Insertion.withoutSpaces_apply (i : Insertion) (entry : List Char) :
    withoutSpaces (i.apply entry) = withoutSpaces entry ++ withoutSpaces i.text := by
  have hfront : withoutSpaces (i.front entry) = withoutSpaces entry := by
    rw [← withoutSpaces_trimSpaces, trimSpaces_front, withoutSpaces_trimSpaces]
  have hafter : withoutSpaces i.spacing.after = [] := by cases i.spacing <;> rfl
  rw [apply_eq, withoutSpaces_append, withoutSpaces_append, hfront, hafter, List.append_nil]

/-- A constant is set apart from a digit. -/
theorem last_front_word {text entry : List Char} {c : Char}
    (h : (Insertion.front ⟨text, .word⟩ entry).getLast? = some c) :
    c = ' ' ∨ entry.getLast? = some c ∧ ¬ Lexicon.Digit c := by
  simp only [Insertion.front] at h
  split at h
  · rw [List.getLast?_concat] at h
    exact .inl (Option.some.inj h).symm
  · next hcloses =>
    refine .inr ⟨h, fun hdigit => ?_⟩
    simp [h, closesNumber, (Lexicon.isDigit_iff c).mpr hdigit] at hcloses

/-- A function and an opening parenthesis are set apart from digits and letters. -/
theorem last_front_opening {text entry : List Char} {c : Char}
    (h : (Insertion.front ⟨text, .opening⟩ entry).getLast? = some c) :
    c = ' ' ∨ entry.getLast? = some c ∧ (Lexicon.NamePart c → c = '_') := by
  simp only [Insertion.front] at h
  split at h
  · rw [List.getLast?_concat] at h
    exact .inl (Option.some.inj h).symm
  · next hcloses =>
    refine .inr ⟨h, fun hpart => ?_⟩
    obtain ⟨before, rfl⟩ := List.getLast?_eq_some_iff.mp h
    have hvisible : lastVisible? (before ++ [c]) = some c := by
      simp [lastVisible?, hpart.not_isBlank]
    rw [hvisible] at hcloses
    rcases hpart with hstart | hdigit
    · by_contra hc
      have halpha := (Lexicon.isNameStart_iff c).mpr hstart
      simp [isNameStart, hc] at halpha
      simp [closesOperand, halpha] at hcloses
    · simp [closesOperand, (Lexicon.isDigit_iff c).mpr hdigit] at hcloses

/-- An operator is set apart from what stands before it, if anything does. -/
theorem front_operator_cases (text entry : List Char) :
    Insertion.front ⟨text, .operator⟩ entry = [] ∨
      ∃ before, Insertion.front ⟨text, .operator⟩ entry = before ++ [' '] := by
  simp only [Insertion.front]
  split
  · exact .inl rfl
  · exact .inr ⟨_, rfl⟩

theorem nameStart_of_isAlpha {c : Char} (h : c.isAlpha = true) : Lexicon.NameStart c :=
  (Lexicon.isNameStart_iff c).mp (by simp [isNameStart, h])

/-- No whole name ends in another one. -/
theorem eq_of_suffix_of_mem_wholeNames {a b : List Char} (ha : a ∈ wholeNames)
    (hb : b ∈ wholeNames) (h : a <:+ b) : a = b := by
  have hall : ∀ a ∈ wholeNames, ∀ b ∈ wholeNames, a <:+ b → a = b := by decide
  exact hall a ha b hb h

theorem letters_of_mem_names {name : String}
    (h : name ∈ Registry.functionNames ++ Registry.constantNames) :
    name.toList ≠ [] ∧ ∀ c ∈ name.toList, c.isAlpha = true := by
  have hall : (Registry.functionNames ++ Registry.constantNames).all
      fun name => !name.toList.isEmpty && name.toList.all Char.isAlpha := by decide
  simpa using List.all_eq_true.mp hall name h

/-- A whole name is letters with a parenthesis after them, or letters only. -/
theorem last_of_mem_wholeNames {name : List Char} (h : name ∈ wholeNames) :
    ∃ before c, c.isAlpha = true ∧ (name = before ++ [c] ++ ['('] ∨ name = before ++ [c]) := by
  have hlast : ∀ name ∈ Registry.functionNames ++ Registry.constantNames,
      ∃ before c, c.isAlpha = true ∧ name.toList = before ++ [c] := by
    intro name hname
    obtain ⟨hne, hall⟩ := letters_of_mem_names hname
    have heq := (List.dropLast_append_getLast hne).symm
    exact ⟨_, _, hall _ (List.getLast_mem hne), heq⟩
  rcases List.mem_append.mp h with h | h
  · obtain ⟨name, hname, rfl⟩ := List.mem_map.mp h
    obtain ⟨before, c, hc, heq⟩ := hlast name (List.mem_append_left _ hname)
    exact ⟨before, c, hc, .inl (by rw [heq])⟩
  · obtain ⟨name, hname, rfl⟩ := List.mem_map.mp h
    obtain ⟨before, c, hc, heq⟩ := hlast name (List.mem_append_right _ hname)
    exact ⟨before, c, hc, .inr heq⟩

/-- A whole name at the end of the entry is dropped. -/
theorem dropSymbol_append_name {name : List Char} (h : name ∈ wholeNames) (cs : List Char) :
    dropSymbol (cs ++ name) = cs := by
  cases hfind : wholeNames.find? fun other => other.isSuffixOf (cs ++ name) with
  | none =>
    have hnot := List.find?_eq_none.mp hfind name h
    exact absurd (List.isSuffixOf_iff_suffix.mpr (List.suffix_append cs name)) hnot
  | some found =>
    have hmem := List.mem_of_find?_eq_some hfind
    have hsuffix : found <:+ cs ++ name :=
      List.isSuffixOf_iff_suffix.mp (by simpa using List.find?_some hfind)
    obtain rfl : found = name := by
      rcases List.suffix_or_suffix_of_suffix hsuffix (List.suffix_append cs name) with hle | hle
      · exact eq_of_suffix_of_mem_wholeNames hmem h hle
      · exact (eq_of_suffix_of_mem_wholeNames h hmem hle).symm
    simp [dropSymbol, hfind]

/-- A character is dropped alone, if it is no letter and no parenthesis that opens after one. -/
theorem dropSymbol_concat {cs : List Char} {c : Char} (hc : c.isAlpha = false)
    (hparen : c = '(' → ∀ d, cs.getLast? = some d → d.isAlpha = false) :
    dropSymbol (cs ++ [c]) = cs := by
  have hnone : ∀ name ∈ wholeNames, ¬ name <:+ cs ++ [c] := by
    rintro name hname ⟨front, heq⟩
    obtain ⟨before, d, hd, rfl | rfl⟩ := last_of_mem_wholeNames hname
    · rw [← List.append_assoc] at heq
      obtain ⟨rfl, hlast⟩ := List.append_inj' heq rfl
      have hparen := hparen (List.singleton_inj.mp hlast).symm d (by simp [← List.append_assoc])
      rw [hd] at hparen
      cases hparen
    · rw [← List.append_assoc] at heq
      obtain ⟨-, hlast⟩ := List.append_inj' heq rfl
      rw [List.singleton_inj.mp hlast, hc] at hd
      cases hd
  have hfind : (wholeNames.find? fun name => name.isSuffixOf (cs ++ [c])) = none :=
    List.find?_eq_none.mpr fun name hname hsuffix =>
      hnone name hname (List.isSuffixOf_iff_suffix.mp hsuffix)
  simp [dropSymbol, hfind]

/-- An opening parenthesis is set apart from a letter before it. -/
theorem not_isAlpha_of_front {entry : List Char} {d : Char}
    (h : (Insertion.front ⟨['('], .opening⟩ entry).getLast? = some d) : d.isAlpha = false := by
  refine Bool.eq_false_of_not_eq_true fun halpha => ?_
  have hd : d = ' ' ∨ d = '_' := (last_front_opening h).imp_right fun hlast =>
    hlast.2 (.inl (nameStart_of_isAlpha halpha))
  rcases hd with rfl | rfl <;> exact absurd halpha (by decide)

theorem deleteLast_trimSpaces (cs : List Char) : deleteLast (trimSpaces cs) = deleteLast cs := by
  rw [deleteLast, trimSpaces_trimSpaces, deleteLast]

theorem deleteLast_concat_space (cs : List Char) : deleteLast (cs ++ [' ']) = deleteLast cs := by
  rw [deleteLast, trimSpaces_concat_space, deleteLast]

theorem deleteLast_concat {cs : List Char} {c : Char} (hc : c.isAlpha = false) (hspace : c ≠ ' ')
    (hparen : c = '(' → ∀ d, cs.getLast? = some d → d.isAlpha = false) :
    deleteLast (cs ++ [c]) = trimSpaces cs := by
  rw [deleteLast, trimSpaces_concat hspace, dropSymbol_concat hc hparen]

theorem deleteLast_append_name {name : List Char} (h : name ∈ wholeNames) (cs : List Char) :
    deleteLast (cs ++ name) = trimSpaces cs := by
  have htrim : trimSpaces (cs ++ name) = cs ++ name := by
    obtain ⟨before, c, hc, rfl | rfl⟩ := last_of_mem_wholeNames h
    · rw [← List.append_assoc, trimSpaces_concat (by decide)]
    · rw [← List.append_assoc, trimSpaces_concat]
      rintro rfl
      cases hc
  rw [deleteLast, htrim, dropSymbol_append_name h]

/-- Deleting once takes back what a button entered, but for the spaces before it. -/
theorem Enters.deleteLast_apply {label : String} {i : Insertion} (h : Enters label i)
    (entry : List Char) : deleteLast (i.apply entry) = trimSpaces entry := by
  rw [← i.trimSpaces_front entry, i.apply_eq]
  cases h with
  | @digit _ c _ hc =>
    simp only [Spacing.after, List.append_nil]
    rcases hc with hc | rfl
    · have hdigit := (Lexicon.isDigit_iff c).mp hc
      have hnot := hdigit.not_mem
      refine deleteLast_concat ?_ (by rintro rfl; simp at hnot) (by rintro rfl; simp at hnot)
      exact Bool.eq_false_of_not_eq_true fun halpha =>
        hdigit.not_nameStart (nameStart_of_isAlpha halpha)
    · exact deleteLast_concat rfl (by decide) (by simp)
  | constant hname =>
    simp only [Spacing.after, List.append_nil]
    exact deleteLast_append_name (List.mem_append_right _ (List.mem_map_of_mem hname)) _
  | function hname =>
    simp only [Spacing.after, List.append_nil]
    refine deleteLast_append_name (List.mem_append_left _ ?_) _
    exact List.mem_map.mpr ⟨_, hname, rfl⟩
  | leftParen =>
    simp only [Spacing.after, List.append_nil]
    exact deleteLast_concat rfl (by decide) fun _ d hd => not_isAlpha_of_front hd
  | @operator _ c _ hc =>
    obtain ⟨halpha, hspace, hparen⟩ : c.isAlpha = false ∧ c ≠ ' ' ∧ c ≠ '(' := by
      simp only [List.mem_cons, List.not_mem_nil, or_false] at hc
      rcases hc with rfl | rfl | rfl | rfl | rfl <;> decide
    simp only [Spacing.after]
    rw [deleteLast_concat_space]
    exact deleteLast_concat halpha hspace fun h => absurd h hparen
  | rightParen =>
    simp only [Spacing.after, List.append_nil]
    exact deleteLast_concat rfl (by decide) (by simp)
  | comma =>
    have hcomma : ∀ cs : List Char, cs ++ [',', ' '] = cs ++ [','] ++ [' '] := by simp
    simp only [Spacing.after, List.append_nil]
    rw [hcomma, deleteLast_concat_space]
    exact deleteLast_concat rfl (by decide) (by simp)

/-- Deleting once more than buttons were pressed goes as far as deleting once. -/
theorem deleteLast_iterate {insertions : List Insertion}
    (h : ∀ i ∈ insertions, ∃ label, Enters label i) (entry : List Char) :
    deleteLast (deleteLast^[insertions.length]
      (insertions.foldl (fun entry i => i.apply entry) entry)) = deleteLast entry := by
  induction insertions generalizing entry with
  | nil => rfl
  | cons i insertions ih =>
    rw [List.forall_mem_cons] at h
    obtain ⟨⟨label, hi⟩, hlater⟩ := h
    rw [List.length_cons, Function.iterate_succ_apply', List.foldl_cons, ih hlater,
      hi.deleteLast_apply, deleteLast_trimSpaces]

theorem toList_entry_insert (w : Window) (i : Insertion) :
    (w.step (.press (.insert i))).entry.toList = i.apply w.entry.toList := by
  simp [step, press, edit, draw]

theorem toList_entry_delete (w : Window) :
    (w.step (.press .delete)).entry.toList = deleteLast w.entry.toList := by
  simp [step, press, edit, draw]

theorem toList_entry_inserts (insertions : List Insertion) (w : Window) :
    ((insertions.map fun i => Event.press (.insert i)).foldl step w).entry.toList =
      insertions.foldl (fun entry i => i.apply entry) w.entry.toList := by
  induction insertions generalizing w with
  | nil => rfl
  | cons i insertions ih =>
    rw [List.map_cons, List.foldl_cons, List.foldl_cons, ih, toList_entry_insert]

theorem toList_entry_deletes (n : Nat) (w : Window) :
    ((List.replicate n (Event.press .delete)).foldl step w).entry.toList =
      deleteLast^[n] w.entry.toList := by
  induction n generalizing w with
  | zero => rfl
  | succ n ih =>
    rw [List.replicate_succ, List.foldl_cons, ih, toList_entry_delete, Function.iterate_succ_apply]

theorem withoutSpaces_inserts (insertions : List Insertion) (entry : List Char) :
    withoutSpaces (insertions.foldl (fun entry i => i.apply entry) entry) =
      withoutSpaces entry ++ insertions.flatMap fun i => withoutSpaces i.text := by
  induction insertions generalizing entry with
  | nil => exact (List.append_nil _).symm
  | cons i insertions ih =>
    rw [List.foldl_cons, ih, i.withoutSpaces_apply, List.flatMap_cons, List.append_assoc]

/-- From any entry, pressing buttons that insert enters their texts one after the other, with the
spaces that each sets, and deleting as often gives the entry back without the spaces at its end, if
at least one button was pressed. -/
theorem deletes_undo_inserts (w : Window) {insertions : List Insertion}
    (hbuttons : ∀ i ∈ insertions, ∃ label, (label, Button.insert i) ∈ Button.all)
    (hne : insertions ≠ []) :
    (((insertions.map fun i => Event.press (.insert i)).foldl step w).entry.toList =
        insertions.foldl (fun entry i => i.apply entry) w.entry.toList ∧
      withoutSpaces ((insertions.map fun i => Event.press (.insert i)).foldl step w).entry.toList =
        withoutSpaces w.entry.toList ++ insertions.flatMap fun i => withoutSpaces i.text) ∧
    ((insertions.map (fun i => Event.press (.insert i)) ++
      List.replicate insertions.length (Event.press .delete)).foldl step w).entry =
      .ofList (trimSpaces w.entry.toList) := by
  refine ⟨⟨toList_entry_inserts insertions w, ?_⟩, String.toList_injective ?_⟩
  · rw [toList_entry_inserts, withoutSpaces_inserts]
  have henters : ∀ i ∈ insertions, ∃ label, Enters label i := fun i hi =>
    (hbuttons i hi).imp fun _ => enters_of_mem
  obtain ⟨i, insertions, rfl⟩ := List.exists_cons_of_ne_nil hne
  rw [List.forall_mem_cons] at henters
  obtain ⟨⟨label, hi⟩, hlater⟩ := henters
  rw [List.foldl_append, toList_entry_deletes, toList_entry_inserts, List.length_cons,
    Function.iterate_succ_apply', List.foldl_cons, deleteLast_iterate hlater, hi.deleteLast_apply,
    String.toList_ofList]

/-- A parenthesis after a name that was typed, and a constant after it: the name stays. -/
theorem deletes_undo_inserts_after_name :
    (∀ i ∈ [Insertion.mk ['('] .opening, ⟨['p', 'i'], .word⟩],
      ∃ label, (label, Button.insert i) ∈ Button.all) ∧
    [Insertion.mk ['('] .opening, ⟨['p', 'i'], .word⟩] ≠ [] ∧
    (run [.assign "sin "]).entry = "sin " ∧
    ([.press (.insert ⟨['('], .opening⟩), .press (.insert ⟨['p', 'i'], .word⟩)].foldl step
      (run [.assign "sin "])).entry.toList = "sin  (pi".toList ∧
    ([.press (.insert ⟨['('], .opening⟩), .press (.insert ⟨['p', 'i'], .word⟩), .press .delete,
      .press .delete].foldl step (run [.assign "sin "])).entry = "sin" := by
  have hbuttons : ∀ i ∈ [Insertion.mk ['('] .opening, ⟨['p', 'i'], .word⟩],
      ∃ label, (label, Button.insert i) ∈ Button.all := by
    refine List.forall_mem_cons.mpr ⟨⟨"(", by decide⟩, List.forall_mem_singleton.mpr ⟨"pi", ?_⟩⟩
    decide
  obtain ⟨⟨hentered, -⟩, hundone⟩ :=
    deletes_undo_inserts (run [.assign "sin "]) hbuttons (List.cons_ne_nil _ _)
  have hentry : (run [.assign "sin "]).entry = "sin " := rfl
  have htexts : [Insertion.mk ['('] .opening, ⟨['p', 'i'], .word⟩].foldl
      (fun entry i => i.apply entry) "sin ".toList = "sin  (pi".toList := by decide
  have htrimmed : String.ofList (trimSpaces "sin ".toList) = "sin" := by decide
  rw [hentry, htexts] at hentered
  rw [hentry, htrimmed] at hundone
  exact ⟨hbuttons, List.cons_ne_nil _ _, hentry, hentered, hundone⟩

end Reckoner.Window
