import Reckoner.Proofs.Expr.Misfit

/-!
# The order of the names

A name before an opening parenthesis is the function of a call, any other name is a constant. The
checks of a tree for its names come in the order of the names in the text: a call is checked for its
name before its arguments, and operators and signs, on whichever side of their operands they stand,
are checked for no name. So the first name that an evaluation refuses is the leftmost one that is
not allowed where it stands.
-/
namespace Reckoner

/-- The check is for a name. -/
def Check.isName : Check → Bool
  | name _ => true
  | function _ => true
  | _ => false

namespace Lexeme

/-- The check of a name before the next lexeme. -/
def nameCheck? (lexeme : Lexeme) (next : Option Lexeme) : Option Check :=
  match lexeme with
  | name x => some (if next = some .leftParen then .function x else .name x)
  | _ => none

/-- The checks of the names of a text, from left to right. -/
def nameChecks : List Lexeme → List Check
  | [] => []
  | lexeme :: after => (lexeme.nameCheck? after.head?).toList ++ nameChecks after

theorem nameChecks_cons (lexeme : Lexeme) (after : List Lexeme) :
    nameChecks (lexeme :: after) =
      (lexeme.nameCheck? after.head?).toList ++ nameChecks after := rfl

theorem nameChecks_cons_of_ne {lexeme : Lexeme} (h : ∀ x, lexeme ≠ .name x)
    (after : List Lexeme) : nameChecks (lexeme :: after) = nameChecks after := by
  cases lexeme with
  | name x => exact absurd rfl (h x)
  | _ => rfl

theorem nameCheck?_of_ne {next : Option Lexeme} (h : next ≠ some .leftParen) (lexeme : Lexeme) :
    lexeme.nameCheck? next = lexeme.nameCheck? none := by
  cases lexeme <;> simp [nameCheck?, h]

/-- Only an opening parenthesis changes the check of the name before it. -/
theorem nameChecks_append {rs : List Lexeme} (h : rs.head? ≠ some .leftParen) (ls : List Lexeme) :
    nameChecks (ls ++ rs) = nameChecks ls ++ nameChecks rs := by
  induction ls with
  | nil => rfl
  | cons lexeme ls ih =>
    rw [List.cons_append, nameChecks_cons, nameChecks_cons, ih, List.append_assoc]
    cases ls with
    | nil => rw [List.nil_append, nameCheck?_of_ne h, List.head?_nil]
    | cons next ls => rfl

end Lexeme

namespace Grammar

open Lexeme (nameChecks nameChecks_append nameChecks_cons_of_ne)

theorem head?_flatMap_comma_ne {rs : List Lexeme} (h : rs.head? ≠ some .leftParen) (k : Nat)
    (phrases : List (List Placed)) :
    ((phrases.flatMap (⟨.comma, k⟩ :: ·)).map Placed.lexeme ++ rs).head? ≠ some .leftParen := by
  cases phrases with
  | nil => exact h
  | cons ps phrases => simp

theorem nameChecks_flatMap_comma {rs : List Lexeme} (h : rs.head? ≠ some .leftParen) (k : Nat)
    (phrases : List (List Placed)) :
    nameChecks ((phrases.flatMap (⟨.comma, k⟩ :: ·)).map Placed.lexeme ++ rs) =
      phrases.flatMap (fun ps => nameChecks (ps.map Placed.lexeme)) ++ nameChecks rs := by
  induction phrases with
  | nil => rfl
  | cons ps phrases ih =>
    simp only [List.flatMap_cons, List.map_append, List.map_cons, List.append_assoc,
      List.cons_append]
    rw [nameChecks_cons_of_ne (by simp), nameChecks_append (head?_flatMap_comma_ne h k phrases), ih]

theorem nameChecks_separated {rs : List Lexeme} (h : rs.head? ≠ some .leftParen) (k : Nat)
    (phrases : List (List Placed)) :
    nameChecks ((separated k phrases).map Placed.lexeme ++ rs) =
      phrases.flatMap (fun ps => nameChecks (ps.map Placed.lexeme)) ++ nameChecks rs := by
  cases phrases with
  | nil => rfl
  | cons ps phrases =>
    rw [separated_cons, List.map_append, List.append_assoc,
      nameChecks_append (head?_flatMap_comma_ne h k phrases), nameChecks_flatMap_comma h,
      List.flatMap_cons, List.append_assoc]

/-- An operator stands between its operands and adds no name. -/
theorem nameChecks_operator (op : Operator) (k : Nat) (ls rs : List Placed) :
    nameChecks ((ls ++ ⟨op.lexeme, k⟩ :: rs).map Placed.lexeme) =
      nameChecks (ls.map Placed.lexeme) ++ nameChecks (rs.map Placed.lexeme) := by
  have hhead : op.lexeme ≠ .leftParen := by cases op <;> exact nofun
  have hname : ∀ x, op.lexeme ≠ .name x := by cases op <;> exact fun _ => nofun
  rw [List.map_append, List.map_cons, nameChecks_append (by simpa using hhead),
    nameChecks_cons_of_ne hname]

theorem filter_checks_binary (op : Operator) (l r : Expr) :
    (Expr.binary op l r).checks.filter Check.isName =
      l.checks.filter Check.isName ++ r.checks.filter Check.isName := by
  cases op <;> simp [Expr.checks, Expr.checksBefore, Expr.checksAfter, Check.isName]

theorem filter_checks_call (function : String) (arguments : List Expr) :
    (Expr.call function arguments).checks.filter Check.isName =
      .function function :: arguments.flatMap fun t => t.checks.filter Check.isName := by
  have hafter : (Expr.call function arguments).checksAfter.filter Check.isName = [] := by
    rw [Expr.checksAfter]
    split <;> simp [Check.isName]
  rw [Expr.checks_eq, List.filter_append, List.filter_append, hafter, List.append_nil,
    List.filter_flatMap]
  rfl

/-- The checks of a tree for names are those of the names of its text, in the same order. Behind the
arguments of a call there is neither a name nor an opening parenthesis. -/
theorem Derives.filter_checks {s : Symbol} {k : Nat} {ps : List Placed} {t : Expr}
    (h : Derives s k ps t) :
    t.checks.filter Check.isName = nameChecks (ps.map Placed.lexeme) := by
  induction h with
  | ofTerm _ ih | ofPower _ ih | ofSigned _ ih | ofAtom _ ih => exact ih
  | additive op _ _ _ ihl ihr | multiplicative op _ _ _ ihl ihr =>
    rw [filter_checks_binary, nameChecks_operator, ihl, ihr]
  | exponent _ _ ihl ihr =>
    rw [filter_checks_binary, ihl, ihr]
    exact (nameChecks_operator .pow _ _ _).symm
  | @sign _ ps t s _ ih =>
    have hname : ∀ x, s.lexeme ≠ .name x := by cases s <;> exact fun _ => nofun
    rw [List.map_cons, nameChecks_cons_of_ne hname, ← ih]
    simp [Expr.checks, Expr.checksBefore, Expr.checksAfter]
  | number value => rfl
  | name text => rfl
  | parenthesized _ ih =>
    rw [ih, List.cons_append, List.map_cons, nameChecks_cons_of_ne (by simp),
      List.map_append, nameChecks_append (by simp)]
    exact (List.append_nil _).symm
  | @call k function arguments last hlast _ ih =>
    have hclosing :
        ((last ++ [Placed.mk .rightParen k]).map Placed.lexeme).head? ≠ some .leftParen := by
      rcases hlast with rfl | ⟨rfl, -⟩ <;> simp
    have hnone : nameChecks ((last ++ [Placed.mk .rightParen k]).map Placed.lexeme) = [] := by
      rcases hlast with rfl | ⟨rfl, -⟩ <;> rfl
    have harguments : (arguments.map Prod.snd).flatMap (fun t => t.checks.filter Check.isName) =
        (arguments.map Prod.fst).flatMap (fun ps => nameChecks (ps.map Placed.lexeme)) := by
      rw [List.flatMap_map, List.flatMap_map]
      exact List.flatMap_congr fun a ha => ih a ha
    rw [filter_checks_call, harguments, List.append_assoc]
    simp only [List.map_cons]
    rw [List.map_append, Lexeme.nameChecks_cons, nameChecks_cons_of_ne (by simp),
      nameChecks_separated hclosing, hnone, List.append_nil]
    rfl

end Grammar

open Lexeme (nameChecks)

/-- The name is not allowed before these lexemes. -/
def Forbidden (x : String) (after : List Lexeme) : Prop :=
  if after.head? = some .leftParen then x ∉ Registry.functionNames
  else x ∉ Registry.constantNames

instance (x : String) (after : List Lexeme) : Decidable (Forbidden x after) :=
  inferInstanceAs (Decidable (if after.head? = some .leftParen then x ∉ Registry.functionNames
    else x ∉ Registry.constantNames))

/-- How a forbidden name is refused. -/
def nameRefusal (x : String) (after : List Lexeme) : Refusal :=
  if after.head? = some .leftParen then .unknownFunction x else .unknownName x

/-- The name is the leftmost of those that are forbidden where they stand. -/
structure LeftmostForbidden (ls before : List Lexeme) (x : String) (after : List Lexeme) :
    Prop where
  eq_append : ls = before ++ .name x :: after
  forbidden : Forbidden x after
  length_le : ∀ before' y after', ls = before' ++ .name y :: after' → Forbidden y after' →
    before.length ≤ before'.length

theorem LeftmostForbidden.head {x : String} {after : List Lexeme} (h : Forbidden x after) :
    LeftmostForbidden (.name x :: after) [] x after :=
  ⟨rfl, h, fun _ _ _ _ _ => Nat.zero_le _⟩

theorem LeftmostForbidden.cons {lexeme : Lexeme} {ls before after : List Lexeme} {x : String}
    (h : LeftmostForbidden ls before x after)
    (hlexeme : ∀ y, lexeme = .name y → ¬ Forbidden y ls) :
    LeftmostForbidden (lexeme :: ls) (lexeme :: before) x after := by
  refine ⟨congrArg (lexeme :: ·) h.eq_append, h.forbidden, fun before' y after' hls hy => ?_⟩
  cases before' with
  | nil =>
    obtain ⟨hname, rfl⟩ := List.cons.inj hls
    exact absurd hy (hlexeme y hname)
  | cons other before' =>
    obtain ⟨rfl, htail⟩ := List.cons.inj hls
    exact Nat.succ_le_succ (h.length_le before' y after' htail hy)

/-- A name fails its check exactly if it is forbidden. -/
theorem findSome?_nameCheck? (x : String) (after : List Lexeme) :
    ((Lexeme.name x).nameCheck? after.head?).toList.findSome? Check.refusal? =
      if Forbidden x after then some (nameRefusal x after) else none := by
  by_cases hcall : after.head? = some .leftParen
  · simp [Lexeme.nameCheck?, Forbidden, nameRefusal, hcall, Check.refusal?]
  · simp [Lexeme.nameCheck?, Forbidden, nameRefusal, hcall, Check.refusal?]

theorem findSome?_nameChecks_name (x : String) (after : List Lexeme) :
    (nameChecks (.name x :: after)).findSome? Check.refusal? =
      if Forbidden x after then some (nameRefusal x after)
      else (nameChecks after).findSome? Check.refusal? := by
  rw [Lexeme.nameChecks_cons, List.findSome?_append, findSome?_nameCheck?]
  split <;> rfl

/-- The first check that fails is that of the leftmost forbidden name: where the head passes, the
refusal comes from what follows it. -/
theorem exists_leftmostForbidden {ls : List Lexeme} {refusal : Refusal}
    (h : (nameChecks ls).findSome? Check.refusal? = some refusal) :
    ∃ before x after, LeftmostForbidden ls before x after ∧ refusal = nameRefusal x after := by
  induction ls with
  | nil => cases h
  | cons lexeme ls ih =>
    by_cases hname : ∃ x, lexeme = .name x ∧ Forbidden x ls
    · obtain ⟨x, rfl, hx⟩ := hname
      rw [findSome?_nameChecks_name, if_pos hx] at h
      cases h
      exact ⟨[], x, ls, .head hx, rfl⟩
    · have hlexeme : ∀ y, lexeme = .name y → ¬ Forbidden y ls := fun y hy hforbidden =>
        hname ⟨y, hy, hforbidden⟩
      have hrest : (nameChecks ls).findSome? Check.refusal? = some refusal := by
        cases lexeme with
        | name x => rwa [findSome?_nameChecks_name, if_neg (hlexeme x rfl)] at h
        | _ => rwa [Lexeme.nameChecks_cons_of_ne (by simp)] at h
      obtain ⟨before, x, after, hleftmost, hrefusal⟩ := ih hrest
      exact ⟨lexeme :: before, x, after, hleftmost.cons hlexeme, hrefusal⟩

/-- If no check fails, no name is forbidden. -/
theorem not_forbidden {ls : List Lexeme}
    (h : (nameChecks ls).findSome? Check.refusal? = none) {before : List Lexeme} {x : String}
    {after : List Lexeme} (hls : ls = before ++ .name x :: after) : ¬ Forbidden x after := by
  induction before generalizing ls with
  | nil =>
    intro hx
    rw [hls, List.nil_append, findSome?_nameChecks_name, if_pos hx] at h
    cases h
  | cons lexeme before ih =>
    subst hls
    rw [List.cons_append, Lexeme.nameChecks_cons, List.findSome?_append, Option.or_eq_none_iff] at h
    exact ih h.2 rfl

/-- A check that is for no name refuses an operation. -/
theorem Check.exists_detail_of_refusal? {check : Check} {refusal : Refusal}
    (h : check.refusal? = some refusal) (hname : check.isName = false) :
    ∃ detail, refusal = .invalidOperation detail := by
  cases check with
  | name text => cases hname
  | function text => cases hname
  | arity called received => grind [Check.refusal?, Fault.toRefusal]
  | divisor operand => grind [Check.refusal?, Fault.toRefusal]
  | radicand argument => grind [Check.refusal?, Fault.toRefusal]

/-- The first refusal among the checks, if it is of a name, is the first among those for names. -/
theorem findSome?_filter_isName {checks : List Check} {refusal : Refusal}
    (h : checks.findSome? Check.refusal? = some refusal)
    (hname : ∀ detail, refusal ≠ .invalidOperation detail) :
    (checks.filter Check.isName).findSome? Check.refusal? = some refusal := by
  obtain ⟨before, check, after, rfl, hcheck, hbefore⟩ := List.findSome?_eq_some_iff.mp h
  have hisName : check.isName = true := by
    by_contra hnot
    obtain ⟨detail, hdetail⟩ :=
      Check.exists_detail_of_refusal? hcheck (Bool.eq_false_iff.mpr hnot)
    exact hname detail hdetail
  refine List.findSome?_eq_some_iff.mpr
    ⟨before.filter Check.isName, check, after.filter Check.isName, ?_, hcheck, ?_⟩
  · rw [List.filter_append, List.filter_cons_of_pos hisName]
  · exact fun other hother => hbefore other (List.mem_of_mem_filter hother)

/-- What was read is a sentence for the tree that was read. -/
theorem Reading.filter_checks {text : String} {reading : Reading} (h : read text = .ok reading) :
    reading.expr.checks.filter Check.isName =
      nameChecks (reading.tokens.map Token.lexeme) := by
  obtain ⟨ps, hsentence, hlexemes, -⟩ := Expr.sentence_of_ofTokens (read_eq_ok h).2
  rw [hsentence.filter_checks, hlexemes]

/-- A reading refuses no name. -/
theorem read_ne_name {text : String} {refusal : Refusal} (h : read text = .error refusal) :
    (∀ x, refusal ≠ .unknownName x) ∧ ∀ x, refusal ≠ .unknownFunction x := by
  rcases read_eq_error h with rfl | hscan | ⟨tokens, -, htree⟩
  · exact ⟨nofun, nofun⟩
  · obtain ⟨_, _, _, _, -, -, -, rfl⟩ := Token.exists_stuck_of_scan hscan
    exact ⟨nofun, nofun⟩
  · rcases Expr.ofTokens_eq_error htree with rfl | ⟨_, _, -, rfl, -⟩
    · exact ⟨nofun, nofun⟩
    · exact ⟨nofun, nofun⟩

/-- A name that is refused is the leftmost forbidden one of the text. -/
theorem exists_leftmostForbidden_of_evaluate {s : String} {refusal : Refusal}
    (h : evaluate s = .error refusal)
    (hname : (∃ x, refusal = .unknownName x) ∨ ∃ x, refusal = .unknownFunction x) :
    ∃ tokens before x after, Token.scan (normalized s) = .ok tokens ∧
      LeftmostForbidden (tokens.map Token.lexeme) before x after ∧
      refusal = nameRefusal x after := by
  have hoperation : ∀ detail, refusal ≠ .invalidOperation detail := by
    rcases hname with ⟨x, rfl⟩ | ⟨x, rfl⟩ <;> exact fun _ => nofun
  rcases evaluate_eq_error h with hread | ⟨reading, hread, hvalue⟩
  · obtain ⟨hconstant, hfunction⟩ := read_ne_name hread
    rcases hname with ⟨x, hx⟩ | ⟨x, hx⟩
    · exact absurd hx (hconstant x)
    · exact absurd hx (hfunction x)
  · have hfirst := findSome?_filter_isName
      ((Expr.evaluate_eq_error_iff _ _).mp hvalue) hoperation
    rw [Reading.filter_checks hread] at hfirst
    obtain ⟨before, x, after, hleftmost, hrefusal⟩ := exists_leftmostForbidden hfirst
    exact ⟨reading.tokens, before, x, after, (read_eq_ok hread).1, hleftmost, hrefusal⟩

/-- A name that is refused is the leftmost of the text that is forbidden where it stands. It is
refused as a function exactly if an opening parenthesis follows it. A text that has a value holds no
name that is forbidden where it stands. -/
theorem evaluate_reports_leftmost_name (s : String) :
    (∀ x, evaluate s = .error (.unknownName x) →
      ∃ tokens before after, Token.scan (normalized s) = .ok tokens ∧
        LeftmostForbidden (tokens.map Token.lexeme) before x after ∧
        after.head? ≠ some .leftParen) ∧
    (∀ x, evaluate s = .error (.unknownFunction x) →
      ∃ tokens before after, Token.scan (normalized s) = .ok tokens ∧
        LeftmostForbidden (tokens.map Token.lexeme) before x after ∧
        after.head? = some .leftParen) ∧
    (∀ value, evaluate s = .ok value →
      ∃ tokens, Token.scan (normalized s) = .ok tokens ∧
        ∀ before x after, tokens.map Token.lexeme = before ++ .name x :: after →
          ¬ Forbidden x after) := by
  refine ⟨fun x h => ?_, fun x h => ?_, fun value h => ?_⟩
  · obtain ⟨tokens, before, y, after, hscan, hleftmost, hrefusal⟩ :=
      exists_leftmostForbidden_of_evaluate h (.inl ⟨x, rfl⟩)
    unfold nameRefusal at hrefusal
    split at hrefusal
    · cases hrefusal
    · next hnext =>
      cases hrefusal
      exact ⟨tokens, before, after, hscan, hleftmost, hnext⟩
  · obtain ⟨tokens, before, y, after, hscan, hleftmost, hrefusal⟩ :=
      exists_leftmostForbidden_of_evaluate h (.inr ⟨x, rfl⟩)
    unfold nameRefusal at hrefusal
    split at hrefusal
    · next hnext =>
      cases hrefusal
      exact ⟨tokens, before, after, hscan, hleftmost, hnext⟩
    · cases hrefusal
  · rw [evaluate_eq] at h
    obtain ⟨reading, hread, hvalue⟩ := Except.bind_eq_ok.mp h
    have hnone := (Expr.exists_evaluate_eq_ok_iff _).mp ⟨value, hvalue⟩
    refine ⟨reading.tokens, (read_eq_ok hread).1, fun before x after hls => not_forbidden ?_ hls⟩
    rw [← Reading.filter_checks hread, List.findSome?_eq_none_iff]
    exact fun check hcheck => hnone check (List.mem_of_mem_filter hcheck)

/-- A constant that is called, behind a name that is unknown: the name on the left is refused, and
alone the call. -/
theorem evaluate_reports_leftmost_name_before_call :
    evaluate "pi-x*e(e)" = .error (.unknownName "x") ∧
    (∃ tokens before after, Token.scan (normalized "pi-x*e(e)") = .ok tokens ∧
      LeftmostForbidden (tokens.map Token.lexeme) before "x" after ∧
      after.head? ≠ some .leftParen) ∧
    evaluate "e(x)" = .error (.unknownFunction "e") ∧
    (∃ tokens before after, Token.scan (normalized "e(x)") = .ok tokens ∧
      LeftmostForbidden (tokens.map Token.lexeme) before "e" after ∧
      after.head? = some .leftParen) ∧
    evaluate "+(e)" = .ok 2.718281828459045 ∧
    ∃ tokens, Token.scan (normalized "+(e)") = .ok tokens ∧
      ∀ before x after, tokens.map Token.lexeme = before ++ .name x :: after →
        ¬ Forbidden x after := by
  have hreadName : read "pi-x*e(e)" =
      .ok ⟨[⟨.name "pi", 0⟩, ⟨.minus, 2⟩, ⟨.name "x", 3⟩, ⟨.star, 4⟩, ⟨.name "e", 5⟩,
        ⟨.leftParen, 6⟩, ⟨.name "e", 7⟩, ⟨.rightParen, 8⟩],
        .binary .sub (.name "pi") (.binary .mul (.name "x") (.call "e" [.name "e"]))⟩ := by
      with_unfolding_all rfl
  have hreadCall : read "e(x)" =
      .ok ⟨[⟨.name "e", 0⟩, ⟨.leftParen, 1⟩, ⟨.name "x", 2⟩, ⟨.rightParen, 3⟩],
        .call "e" [.name "x"]⟩ := by with_unfolding_all rfl
  have hreadValue : read "+(e)" =
      .ok ⟨[⟨.plus, 0⟩, ⟨.leftParen, 1⟩, ⟨.name "e", 2⟩, ⟨.rightParen, 3⟩],
        .signed .plus (.name "e")⟩ := by with_unfolding_all rfl
  have hname : evaluate "pi-x*e(e)" = .error (.unknownName "x") := by
    rw [evaluate_eq, hreadName]
    rfl
  have hcall : evaluate "e(x)" = .error (.unknownFunction "e") := by
    rw [evaluate_eq, hreadCall]
    rfl
  have hvalue : evaluate "+(e)" = .ok 2.718281828459045 := by
    rw [evaluate_eq, hreadValue]
    rfl
  exact ⟨hname, (evaluate_reports_leftmost_name _).1 _ hname, hcall,
    (evaluate_reports_leftmost_name _).2.1 _ hcall, hvalue,
    (evaluate_reports_leftmost_name _).2.2 _ hvalue⟩

end Reckoner
