import Reckoner.Proofs.Expr.Soundness

/-!
# Every phrase of the grammar is read

On the tokens of a phrase that cannot go on, a production gives the tree of the phrase if the phrase
is within the limits, and refuses it as too nested otherwise: there is no third answer. The proof is
by induction on the derivation. An operator of a chain is read after its left operand, when the
chain may go on, so for chains the induction speaks of what is still to be joined.
-/
namespace Reckoner

/-- A tree with its height. -/
def Measured.exact (t : Expr) : Measured := ⟨t, t.height⟩

namespace Grammar

instance (ps : List Placed) (t : Expr) : Decidable (Fits ps t) :=
  inferInstanceAs (Decidable (_ ∧ _))

/-- The lexemes that would go on with a phrase of this kind. -/
def Symbol.continuations : Symbol → List Lexeme
  | .atom | .signed => [.leftParen]
  | .power => [.leftParen, .doubleStar]
  | .term => [.leftParen, .doubleStar, .star, .slash]
  | .expression => [.leftParen, .doubleStar, .star, .slash, .plus, .minus]

/-- No token is left that would go on with the phrase. -/
def Stops (s : Symbol) : List Token → Prop
  | [] => True
  | token :: _ => token.lexeme ∉ s.continuations

theorem Stops.mono {s s' : Symbol} {rest : List Token} (h : Stops s' rest)
    (hle : s.continuations ⊆ s'.continuations) : Stops s rest := by
  cases rest with
  | nil => trivial
  | cons token following => exact fun hmem => h (hle hmem)

/-- What a production answers to a phrase. -/
def outcome (ps : List Placed) (t : Expr) (rest : List Token) : Parsed.View Measured :=
  if Fits ps t then .ok (.exact t, rest) else .error (.tooNested nestingLimit)

theorem outcome_of_fits {ps : List Placed} {t : Expr} (h : Fits ps t) (rest : List Token) :
    outcome ps t rest = .ok (.exact t, rest) := if_pos h

theorem outcome_of_not_fits {ps : List Placed} {t : Expr} (h : ¬ Fits ps t) (rest : List Token) :
    outcome ps t rest = .error (.tooNested nestingLimit) := if_neg h

theorem outcome_bind {α : Type} (ps : List Placed) (t : Expr) (rest : List Token)
    (next : Measured × List Token → Except Refusal α) :
    (outcome ps t rest).bind next =
      if Fits ps t then next (.exact t, rest) else .error (.tooNested nestingLimit) := by
  unfold outcome
  split <;> rfl

/-- A tree made of parts that fit is refused exactly if it does not fit as a whole. -/
theorem limited_bind {ps : List Placed} {t : Expr} (h : nesting ps ≤ nestingLimit)
    (rest : List Token) (next : Measured × List Token → Parsed.View Measured) :
    ((Measured.limited t t.height).bind fun limited => next (limited, rest)) =
      (outcome ps t rest).bind next := by
  unfold Measured.limited
  rw [outcome_bind]
  by_cases hheight : t.height ≤ nestingLimit
  · rw [if_neg (Nat.not_lt.mpr hheight), if_pos ⟨h, hheight⟩]
    rfl
  · rw [if_pos (Nat.not_le.mp hheight), if_neg fun hfit => hheight hfit.2]
    rfl

/-- The answer to two phrases around an operator, which the operator joins. -/
theorem outcome_join {k : Nat} {ls rs : List Placed} (hk : k ≤ nesting ls) (x : Lexeme)
    (op : Operator) (l r : Expr) (rest : List Token)
    (next : Measured × List Token → Parsed.View Measured) :
    (if Fits ls l then
        (outcome rs r rest).bind fun right =>
          (Measured.join op (.exact l) right.1).bind fun joined => next (joined, right.2)
      else .error (.tooNested nestingLimit)) =
      (outcome (ls ++ ⟨x, k⟩ :: rs) (.binary op l r) rest).bind next := by
  by_cases hl : Fits ls l
  · rw [if_pos hl, outcome_bind]
    by_cases hr : Fits rs r
    · rw [if_pos hr]
      refine limited_bind ?_ rest next
      have := hl.1
      have := hr.1
      simp only [nesting_append, nesting_cons]
      omega
    · have hnot : ¬ Fits (ls ++ ⟨x, k⟩ :: rs) (.binary op l r) := by
        simp only [Fits, nesting_append, nesting_cons, Expr.height] at hr ⊢
        omega
      rw [if_neg hr, outcome_of_not_fits hnot]
      rfl
  · have hnot : ¬ Fits (ls ++ ⟨x, k⟩ :: rs) (.binary op l r) := by
      simp only [Fits, nesting_append, nesting_cons, Expr.height] at hl ⊢
      omega
    rw [if_neg hl, outcome_of_not_fits hnot]
    rfl

/-- The production gives the phrase its answer, whatever follows that does not go on with it. -/
def ReadsPhrase (s : Symbol) (p : Production) (ps : List Placed) (t : Expr) : Prop :=
  ∀ tokens rest, tokens.map Token.lexeme = ps.map Placed.lexeme → Stops s rest →
    p.run (tokens ++ rest) = outcome ps t rest

/-- The chain gives the phrase its answer and goes on with what follows. -/
def ReadsChain (operator? : Lexeme → Option Operator) (s : Symbol) (operand : Production)
    (ps : List Placed) (t : Expr) : Prop :=
  ∀ tokens rest, tokens.map Token.lexeme = ps.map Placed.lexeme → Stops s rest →
    (Production.chain operator? operand).run (tokens ++ rest) =
      (outcome ps t rest).bind fun read => Production.runChain operator? operand read.1 read.2

/-- Tokens of two phrases around an operator. -/
theorem exists_tokens_around {tokens : List Token} {ls rs : List Placed} {x : Lexeme} {k : Nat}
    (h : tokens.map Token.lexeme = (ls ++ ⟨x, k⟩ :: rs).map Placed.lexeme) :
    ∃ left position right, tokens = left ++ ⟨x, position⟩ :: right ∧
      left.map Token.lexeme = ls.map Placed.lexeme ∧
      right.map Token.lexeme = rs.map Placed.lexeme := by
  rw [List.map_append, List.map_eq_append_iff] at h
  obtain ⟨left, others, rfl, hleft, h⟩ := h
  rw [List.map_cons, List.map_eq_cons_iff] at h
  obtain ⟨⟨lexeme, position⟩, right, rfl, rfl, hright⟩ := h
  exact ⟨left, position, right, rfl, hleft, hright⟩

section Chain

variable {operator? : Lexeme → Option Operator} {s s' : Symbol} {operand : Production}
variable {ps ls rs : List Placed} {t l r : Expr} {k : Nat}

theorem ReadsPhrase.chain (h : ReadsPhrase s operand ps t) :
    ReadsChain operator? s operand ps t := by
  intro tokens rest htokens hstops
  rw [Production.run_chain, h tokens rest htokens hstops]

theorem ReadsChain.join (hl : ReadsChain operator? s operand ls l)
    (hr : ReadsPhrase s operand rs r) (hk : k ≤ nesting ls) {x : Lexeme} {op : Operator}
    (hop : operator? x = some op) (hstop : x ∉ s.continuations) :
    ReadsChain operator? s operand (ls ++ ⟨x, k⟩ :: rs) (.binary op l r) := by
  intro tokens rest htokens hstops
  obtain ⟨left, position, right, rfl, hleft, hright⟩ := exists_tokens_around htokens
  have hfirst := hl left (⟨x, position⟩ :: (right ++ rest)) hleft hstop
  rw [List.append_assoc, List.cons_append, hfirst, outcome_bind, Production.runChain_eq]
  simp only [hop]
  rw [hr right rest hright hstops]
  exact outcome_join hk x op l r rest fun read =>
    Production.runChain operator? operand read.1 read.2

/-- Where no operator follows, the chain ends. -/
theorem ReadsChain.readsPhrase (h : ReadsChain operator? s operand ps t)
    (hends : s.continuations ⊆ s'.continuations)
    (hoperator : ∀ x ∉ s'.continuations, operator? x = none) :
    ReadsPhrase s' (Production.chain operator? operand) ps t := by
  intro tokens rest htokens hstops
  have hrun : ∀ value, Production.runChain operator? operand value rest = .ok (value, rest) := by
    intro value
    rw [Production.runChain_eq]
    cases rest with
    | nil => rfl
    | cons token following => simp only [hoperator _ hstops]
  rw [h tokens rest htokens (hstops.mono hends), outcome_bind, hrun]
  rfl

end Chain

section Phrase

variable {ps ls rs : List Placed} {t l r : Expr} {k : Nat}

theorem ReadsPhrase.power {exponent signed : Production} (h : ReadsPhrase .signed signed ps t) :
    ReadsPhrase .power (Production.power exponent signed) ps t := by
  intro tokens rest htokens hstops
  have hsigned := h tokens rest htokens (hstops.mono (by simp [Symbol.continuations]))
  have hbase : ∀ base : Measured,
      Production.runExponent exponent (base, rest) = .ok (base, rest) := by
    intro base
    unfold Production.runExponent
    split
    · next h =>
      subst h
      exact absurd (by simp [Symbol.continuations]) hstops
    · rfl
  rw [Production.run_power, hsigned, outcome_bind, hbase]
  rfl

theorem ReadsPhrase.power_join {exponent signed : Production}
    (hl : ReadsPhrase .signed signed ls l) (hr : ReadsPhrase .power exponent rs r)
    (hk : k ≤ nesting ls) :
    ReadsPhrase .power (Production.power exponent signed) (ls ++ ⟨.doubleStar, k⟩ :: rs)
      (.binary .pow l r) := by
  intro tokens rest htokens hstops
  obtain ⟨left, position, right, rfl, hleft, hright⟩ := exists_tokens_around htokens
  have hbase := hl left (⟨.doubleStar, position⟩ :: (right ++ rest)) hleft
    (by simp [Symbol.continuations, Stops])
  rw [List.append_assoc, List.cons_append, Production.run_power, hbase, outcome_bind]
  simp only [Production.runExponent]
  rw [hr right rest hright hstops, outcome_join hk]
  cases outcome (ls ++ ⟨.doubleStar, k⟩ :: rs) (.binary .pow l r) rest <;> rfl

theorem ReadsPhrase.sign {operand atom : Production} (h : ReadsPhrase .signed operand ps t)
    (hk : k ≤ nestingLimit) (s : Sign) :
    ReadsPhrase .signed (Production.signed operand atom) (⟨s.lexeme, k⟩ :: ps) (.signed s t) := by
  intro tokens rest htokens hstops
  rw [List.map_cons, List.map_eq_cons_iff] at htokens
  obtain ⟨⟨lexeme, position⟩, tokens, rfl, rfl, htokens⟩ := htokens
  have hrun : (Production.signed operand atom).run (⟨s.lexeme, position⟩ :: (tokens ++ rest)) =
      Production.runSign s operand (tokens ++ rest) := by
    rw [Production.run_signed]
    cases s <;> rfl
  rw [List.cons_append, hrun, Production.runSign, h tokens rest htokens hstops, outcome_bind]
  by_cases hfit : Fits ps t
  · have hnesting : nesting (⟨s.lexeme, k⟩ :: ps) ≤ nestingLimit := by
      have := hfit.1
      simp only [nesting_cons]
      omega
    rw [if_pos hfit]
    show (Measured.limited (.signed s t) (Expr.signed s t).height).bind _ = _
    refine (limited_bind hnesting rest Except.ok).trans ?_
    cases outcome (⟨s.lexeme, k⟩ :: ps) (.signed s t) rest <;> rfl
  · have hnot : ¬ Fits (⟨s.lexeme, k⟩ :: ps) (.signed s t) := by
      simp only [Fits, nesting_cons, Expr.height] at hfit ⊢
      omega
    rw [if_neg hfit, outcome_of_not_fits hnot]

theorem ReadsPhrase.signed_atom {operand atom : Production} (h : ReadsPhrase .atom atom ps t)
    (hhead : ∃ p qs, ps = p :: qs ∧ p.lexeme ≠ .plus ∧ p.lexeme ≠ .minus) :
    ReadsPhrase .signed (Production.signed operand atom) ps t := by
  intro tokens rest htokens hstops
  rw [← h tokens rest htokens (hstops.mono (List.Subset.refl _)), Production.run_signed]
  obtain ⟨p, qs, rfl, hplus, hminus⟩ := hhead
  rw [List.map_cons, List.map_eq_cons_iff] at htokens
  obtain ⟨⟨lexeme, position⟩, tokens, rfl, rfl, -⟩ := htokens
  rw [List.cons_append]
  split
  · simp_all
  · simp_all
  · rfl

end Phrase

section Call

variable {k finish : Nat} {expression : Production} {arguments : List (List Placed × Expr)}

/-- What follows an argument does not go on with it. -/
theorem stops_of_arguments {tokens : List Token} {last : List Placed}
    (hlast : last = [] ∨ last = [⟨.comma, k⟩])
    (h : tokens.map Token.lexeme =
      (arguments.flatMap (⟨.comma, k⟩ :: ·.1) ++ last ++ [Placed.mk .rightParen k]).map
        Placed.lexeme) (rest : List Token) : Stops .expression (tokens ++ rest) := by
  cases tokens with
  | nil => simp at h
  | cons token tokens =>
    show token.lexeme ∉ _
    have hhead : token.lexeme = .comma ∨ token.lexeme = .rightParen := by
      cases arguments with
      | nil => rcases hlast with rfl | rfl <;> simp_all
      | cons a arguments => simp_all
    rcases hhead with hhead | hhead <;> simp [hhead, Symbol.continuations]

/-- The arguments of a call that are left to read are answered as a whole. -/
theorem runArguments_of_phrases {last : List Placed} (hlast : last = [] ∨ last = [⟨.comma, k⟩])
    (hread : ∀ a ∈ arguments, ReadsPhrase .expression expression a.1 a.2)
    (hhead : ∀ a ∈ arguments, ∃ p qs, a.1 = p :: qs ∧ p.lexeme ≠ .rightParen)
    (values : List Measured) {tokens : List Token} (rest : List Token)
    (htokens : tokens.map Token.lexeme =
      (arguments.flatMap (⟨.comma, k⟩ :: ·.1) ++ last ++ [Placed.mk .rightParen k]).map
        Placed.lexeme) :
    Production.runArguments finish expression values (tokens ++ rest) =
      if ∀ a ∈ arguments, Fits a.1 a.2 then
        .ok (values.reverse ++ arguments.map fun a => .exact a.2, rest)
      else .error (.tooNested nestingLimit) := by
  induction arguments generalizing values tokens with
  | nil =>
    rw [if_pos (by simp)]
    rcases hlast with rfl | rfl
    · obtain ⟨⟨_, _⟩, _, rfl, rfl, hnil⟩ := List.map_eq_cons_iff.mp htokens
      obtain rfl := List.map_eq_nil_iff.mp hnil
      rw [Production.runArguments_eq]
      simp
    · obtain ⟨⟨_, _⟩, _, rfl, rfl, hclosing⟩ := List.map_eq_cons_iff.mp htokens
      obtain ⟨⟨_, _⟩, _, rfl, rfl, hnil⟩ := List.map_eq_cons_iff.mp hclosing
      obtain rfl := List.map_eq_nil_iff.mp hnil
      rw [Production.runArguments_eq]
      simp
  | cons a arguments ih =>
    rw [List.forall_mem_cons] at hread hhead
    rw [List.flatMap_cons, List.append_assoc, List.append_assoc, List.cons_append,
      ← List.append_assoc (arguments.flatMap _)] at htokens
    obtain ⟨⟨_, position⟩, _, rfl, rfl, hphrases⟩ := List.map_eq_cons_iff.mp htokens
    rw [List.map_append, List.map_eq_append_iff] at hphrases
    obtain ⟨own, others, rfl, hown, hothers⟩ := hphrases
    have hstops := stops_of_arguments hlast hothers rest
    have hnext := hread.1 own (others ++ rest) hown hstops
    have hrun : Production.runArguments finish expression values
        (⟨.comma, position⟩ :: (own ++ others) ++ rest) =
        (expression.run (own ++ (others ++ rest))).bind fun next =>
          Production.runArguments finish expression (next.1 :: values) next.2 := by
      obtain ⟨p, qs, hp, hne⟩ := hhead.1
      rw [hp, List.map_cons] at hown
      obtain ⟨token, own, rfl, htoken, -⟩ := List.map_eq_cons_iff.mp hown
      rw [List.cons_append, List.append_assoc]
      exact Production.runArguments_comma _ _ _ _ _ (htoken ▸ hne)
    rw [hrun, hnext, outcome_bind, ih hread.2 hhead.2 _ hothers]
    by_cases hfit : Fits a.1 a.2
    · simp only [hfit, ↓reduceIte, List.forall_mem_cons, true_and, List.reverse_cons,
        List.append_assoc, List.map_cons, List.singleton_append]
    · have hnot : ¬ ∀ b ∈ a :: arguments, Fits b.1 b.2 := fun h => hfit (h a List.mem_cons_self)
      rw [if_neg hfit, if_neg hnot]

theorem view_arguments_of_phrases {last : List Placed}
    (hlast : last = [] ∨ last = [⟨.comma, k⟩] ∧ arguments ≠ [])
    (hread : ∀ a ∈ arguments, ReadsPhrase .expression expression a.1 a.2)
    (hhead : ∀ a ∈ arguments, ∃ p qs, a.1 = p :: qs ∧ p.lexeme ≠ .rightParen)
    {tokens : List Token} (rest : List Token)
    (htokens : tokens.map Token.lexeme =
      (separated k (arguments.map Prod.fst) ++ last ++ [Placed.mk .rightParen k]).map
        Placed.lexeme) :
    Parsed.view (Production.arguments finish expression (tokens ++ rest)) =
      if ∀ a ∈ arguments, Fits a.1 a.2 then
        .ok (arguments.map fun a => .exact a.2, rest)
      else .error (.tooNested nestingLimit) := by
  cases arguments with
  | nil =>
    obtain rfl : last = [] := by simpa using hlast
    obtain ⟨⟨_, _⟩, _, rfl, rfl, hnil⟩ := List.map_eq_cons_iff.mp htokens
    obtain rfl := List.map_eq_nil_iff.mp hnil
    rw [Production.view_arguments]
    simp
  | cons a arguments =>
    have hlast' : last = [] ∨ last = [⟨.comma, k⟩] := hlast.imp_right And.left
    obtain ⟨p, qs, hp, hne⟩ := hhead a List.mem_cons_self
    obtain ⟨token, following, rfl, htoken⟩ : ∃ token following, tokens = token :: following ∧
        token.lexeme = p.lexeme := by
      rw [List.map_cons, separated_cons, hp] at htokens
      obtain ⟨token, following, rfl, htoken, -⟩ := List.map_eq_cons_iff.mp htokens
      exact ⟨token, following, rfl, htoken⟩
    have hcomma : (⟨.comma, 0⟩ :: token :: following : List Token).map Token.lexeme =
        ((a :: arguments).flatMap (⟨.comma, k⟩ :: ·.1) ++ last ++ [Placed.mk .rightParen k]).map
          Placed.lexeme := by
      rw [List.map_cons, htokens, List.map_cons, separated_cons, List.flatMap_map]
      rfl
    rw [List.cons_append, Production.view_arguments_of_ne _ _ 0 _ (htoken ▸ hne)]
    exact runArguments_of_phrases hlast' hread hhead [] rest hcomma

theorem fits_of_fits_call (hk : k ≤ nestingLimit) {function : String} {last : List Placed}
    (h : Fits (⟨.name function, k⟩ :: ⟨.leftParen, k⟩ ::
        (separated k (arguments.map Prod.fst) ++ last ++ [⟨.rightParen, k⟩]))
      (.call function (arguments.map Prod.snd))) : ∀ a ∈ arguments, Fits a.1 a.2 := by
  obtain ⟨hnesting, hheight⟩ := h
  simp only [nesting_cons, nesting_append, nesting_nil] at hnesting
  intro a ha
  refine ⟨?_, ?_⟩
  · exact (nesting_separated_le_iff hk _).mp (by omega) a.1 (List.mem_map_of_mem ha)
  · have hle : a.2.height ≤ Expr.greatestHeight (arguments.map Prod.snd) :=
      Expr.height_le_greatestHeight (List.mem_map_of_mem ha)
    rw [Expr.height] at hheight
    omega

theorem readsPhrase_call (hk : k ≤ nestingLimit) (function : String) {last : List Placed}
    (hlast : last = [] ∨ last = [⟨.comma, k⟩] ∧ arguments ≠ [])
    (hread : ∀ a ∈ arguments, ReadsPhrase .expression expression a.1 a.2)
    (hhead : ∀ a ∈ arguments, ∃ p qs, a.1 = p :: qs ∧ p.lexeme ≠ .rightParen) :
    ReadsPhrase .atom (Production.atom finish expression)
      (⟨.name function, k⟩ :: ⟨.leftParen, k⟩ ::
        (separated k (arguments.map Prod.fst) ++ last ++ [⟨.rightParen, k⟩]))
      (.call function (arguments.map Prod.snd)) := by
  intro tokens rest htokens _
  obtain ⟨⟨_, _⟩, _, rfl, rfl, hopen⟩ := List.map_eq_cons_iff.mp htokens
  obtain ⟨⟨_, _⟩, tokens, rfl, rfl, hphrases⟩ := List.map_eq_cons_iff.mp hopen
  rw [List.cons_append, List.cons_append, Production.run_atom]
  simp only
  rw [view_arguments_of_phrases hlast hread hhead rest hphrases]
  by_cases hall : ∀ a ∈ arguments, Fits a.1 a.2
  · have hexact : ∀ value ∈ arguments.map fun a => Measured.exact a.2,
        value.height = value.expr.height := by
      intro value hvalue
      obtain ⟨a, -, rfl⟩ := List.mem_map.mp hvalue
      rfl
    have hexprs : (arguments.map fun a => Measured.exact a.2).map Measured.expr =
        arguments.map Prod.snd := by
      rw [List.map_map]
      rfl
    rw [if_pos hall]
    show (Measured.limited (.call function _) (Production.callHeight _)).bind _ = _
    rw [Production.callHeight_eq hexact function, hexprs]
    have hnesting := Production.nesting_call_le hk function hlast hall
    refine (limited_bind hnesting rest Except.ok).trans ?_
    cases outcome _ _ rest <;> rfl
  · rw [if_neg hall, outcome_of_not_fits fun h => hall (fits_of_fits_call hk h)]
    rfl

end Call

theorem readsPhrase_number {k finish : Nat} {expression : Production} (hk : k ≤ nestingLimit)
    (value : Float) : ReadsPhrase .atom (Production.atom finish expression)
      [⟨.number value, k⟩] (.number value) := by
  intro tokens rest htokens _
  obtain ⟨⟨_, _⟩, _, rfl, rfl, hnil⟩ := List.map_eq_cons_iff.mp htokens
  obtain rfl := List.map_eq_nil_iff.mp hnil
  have hfits : Fits [⟨.number value, k⟩] (.number value) :=
    ⟨by simpa using hk, one_le_nestingLimit⟩
  rw [outcome_of_fits hfits, List.singleton_append, Production.run_atom]
  rfl

theorem readsPhrase_name {k finish : Nat} {expression : Production} (hk : k ≤ nestingLimit)
    (text : String) : ReadsPhrase .atom (Production.atom finish expression)
      [⟨.name text, k⟩] (.name text) := by
  intro tokens rest htokens hstops
  obtain ⟨⟨_, _⟩, _, rfl, rfl, hnil⟩ := List.map_eq_cons_iff.mp htokens
  obtain rfl := List.map_eq_nil_iff.mp hnil
  have hfits : Fits [⟨.name text, k⟩] (.name text) := ⟨by simpa using hk, one_le_nestingLimit⟩
  rw [outcome_of_fits hfits, List.singleton_append, Production.run_atom]
  rcases rest with _ | ⟨⟨lexeme, _⟩, following⟩
  · rfl
  cases lexeme with
  | leftParen => exact absurd List.mem_cons_self hstops
  | _ => rfl

theorem ReadsPhrase.parenthesized {k finish : Nat} {expression : Production} {ps : List Placed}
    {t : Expr} (h : ReadsPhrase .expression expression ps t) (hk : k ≤ nesting ps) :
    ReadsPhrase .atom (Production.atom finish expression)
      (⟨.leftParen, k⟩ :: ps ++ [⟨.rightParen, k⟩]) t := by
  intro tokens rest htokens _
  obtain ⟨⟨_, _⟩, _, rfl, rfl, hinner⟩ := List.map_eq_cons_iff.mp htokens
  rw [List.append_eq, List.map_append, List.map_eq_append_iff] at hinner
  obtain ⟨inner, closing, rfl, hinner, hclosing⟩ := hinner
  obtain ⟨⟨_, position⟩, _, rfl, rfl, hnil⟩ := List.map_eq_cons_iff.mp hclosing
  obtain rfl := List.map_eq_nil_iff.mp hnil
  have hread := h inner (⟨.rightParen, position⟩ :: rest) hinner
    (by simp [Stops, Symbol.continuations])
  rw [List.cons_append, List.append_assoc, Production.run_atom]
  simp only [List.singleton_append]
  rw [hread, outcome_bind]
  have hfits : Fits (⟨.leftParen, k⟩ :: ps ++ [⟨.rightParen, k⟩]) t ↔ Fits ps t := by
    simp only [Fits, List.cons_append, nesting_cons, nesting_append, nesting_nil]
    omega
  by_cases hfit : Fits ps t
  · rw [if_pos hfit, outcome_of_fits (hfits.mpr hfit)]
  · rw [if_neg hfit, outcome_of_not_fits fun h => hfit (hfits.mp h)]

/-- With no level left to open, a phrase of a further level is refused, and it is not within the
limits. -/
theorem readsPhrase_of_refused {s : Symbol} {p : Production} {ps : List Placed} {t : Expr}
    (hp : ∀ tokens, p.run tokens = .error (.tooNested nestingLimit))
    (hnesting : nestingLimit < nesting ps) : ReadsPhrase s p ps t := by
  intro tokens rest _ _
  have hnot : ¬ Fits ps t := fun hfit => by
    have := hfit.1
    omega
  rw [hp, outcome_of_not_fits hnot]

/-- The phrase is answered by the production for its kind, with `room` more levels to open. -/
def Answered (finish room : Nat) : Symbol → List Placed → Expr → Prop
  | .expression => ReadsChain Operator.additive? .term
      (Production.chain Operator.multiplicative? (Level.withRoom finish (room + 1)).exponent)
  | .term => ReadsChain Operator.multiplicative? .power (Level.withRoom finish (room + 1)).exponent
  | .power => ReadsPhrase .power (Level.withRoom finish (room + 1)).exponent
  | .signed => ReadsPhrase .signed (Level.withRoom finish (room + 1)).operand
  | .atom => ReadsPhrase .atom (Production.atom finish (Level.withRoom finish room).expression)

section Answered

variable {finish room k : Nat} {ps : List Placed} {t : Expr}

theorem Answered.term_readsPhrase (h : Answered finish room .term ps t) :
    ReadsPhrase .term
      (Production.chain Operator.multiplicative? (Level.withRoom finish (room + 1)).exponent)
      ps t := by
  refine ReadsChain.readsPhrase h (by simp [Symbol.continuations]) fun x hx => ?_
  cases x with
  | star => simp [Symbol.continuations] at hx
  | slash => simp [Symbol.continuations] at hx
  | _ => rfl

theorem Answered.expression_readsPhrase (h : Answered finish room .expression ps t) :
    ReadsPhrase .expression (Level.withRoom finish (room + 1)).expression ps t := by
  refine ReadsChain.readsPhrase h (by simp [Symbol.continuations]) fun x hx => ?_
  cases x with
  | plus => simp [Symbol.continuations] at hx
  | minus => simp [Symbol.continuations] at hx
  | _ => rfl

/-- The three kinds of phrase that open a level, where they do. -/
theorem readsPhrase_opened {s : Symbol} {p : Nat → Production}
    (hclosed : ∀ tokens, (p 0).run tokens = .error (.tooNested nestingLimit))
    (h : Derives s (k + 1) ps t)
    (hp : ∀ room, k + 1 + room = nestingLimit → ReadsPhrase s (p (room + 1)) ps t)
    (hroom : k + room = nestingLimit) : ReadsPhrase s (p room) ps t := by
  cases room with
  | zero =>
    have := h.level_le_nesting
    exact readsPhrase_of_refused hclosed (by omega)
  | succ room => exact hp room (by omega)

end Answered

/-- Every phrase of the grammar is answered, by induction on its derivation. -/
theorem Derives.answered {s : Symbol} {k : Nat} {ps : List Placed} {t : Expr}
    (h : Derives s k ps t) (finish : Nat) :
    ∀ room, k + room = nestingLimit → Answered finish room s ps t := by
  induction h with
  | ofTerm _ ih => exact fun room hroom => (ih room hroom).term_readsPhrase.chain
  | additive op hop hl _ ihl ihr =>
    intro room hroom
    refine (ihl room hroom).join (ihr room hroom).term_readsPhrase hl.level_le_nesting ?_ ?_
    · rcases hop with rfl | rfl <;> rfl
    · rcases hop with rfl | rfl <;> simp [Operator.lexeme, Symbol.continuations]
  | ofPower _ ih => exact fun room hroom => (ih room hroom).chain
  | multiplicative op hop hl _ ihl ihr =>
    intro room hroom
    refine (ihl room hroom).join (ihr room hroom) hl.level_le_nesting ?_ ?_
    · rcases hop with rfl | rfl <;> rfl
    · rcases hop with rfl | rfl <;> simp [Operator.lexeme, Symbol.continuations]
  | ofSigned _ ih => exact fun room hroom => (ih room hroom).power
  | exponent hl hr ihl ihr =>
    intro room hroom
    have hexponent := readsPhrase_opened (p := fun room => (Level.withRoom finish room).exponent)
      (fun _ => rfl) hr ihr hroom
    exact (ihl room hroom).power_join hexponent hl.level_le_nesting
  | ofAtom h ih =>
    intro room hroom
    obtain ⟨p, qs, hps, -, hsign⟩ := h.exists_head
    exact (ih room hroom).signed_atom ⟨p, qs, hps, hsign rfl⟩
  | sign s h ih =>
    intro room hroom
    have hoperand := readsPhrase_opened (p := fun room => (Level.withRoom finish room).operand)
      (fun _ => rfl) h ih hroom
    exact hoperand.sign (by omega) s
  | number value => exact fun room hroom => readsPhrase_number (by omega) value
  | name text => exact fun room hroom => readsPhrase_name (by omega) text
  | parenthesized h ih =>
    intro room hroom
    have hexpression := readsPhrase_opened
      (p := fun room => (Level.withRoom finish room).expression) (fun _ => rfl) h
      (fun room hroom => (ih room hroom).expression_readsPhrase) hroom
    have := h.level_le_nesting
    exact hexpression.parenthesized (by omega)
  | call function arguments last hlast h ih =>
    intro room hroom
    refine readsPhrase_call (by omega) function hlast (fun a ha => ?_) fun a ha => ?_
    · exact readsPhrase_opened (p := fun room => (Level.withRoom finish room).expression)
        (fun _ => rfl) (h a ha) (fun room hroom => (ih a ha room hroom).expression_readsPhrase)
        hroom
    · obtain ⟨p, qs, hps, hne, -⟩ := (h a ha).exists_head
      exact ⟨p, qs, hps, hne⟩

end Grammar

/-- A sentence is answered by its tree if it is within the limits, and is too nested otherwise. -/
theorem Expr.ofTokens_of_sentence {tokens : List Token} {ps : List Grammar.Placed} {t : Expr}
    (finish : Nat) (h : Grammar.Sentence ps t)
    (hlexemes : ps.map Grammar.Placed.lexeme = tokens.map Token.lexeme) :
    ofTokens tokens finish =
      if Grammar.Fits ps t then .ok t else .error (.tooNested nestingLimit) := by
  have hread := (h.answered finish 199 rfl).expression_readsPhrase tokens [] hlexemes.symm trivial
  rw [List.append_nil] at hread
  rw [ofTokens_eq]
  refine (congrArg (Except.bind · whole) hread).trans ?_
  simp only [Grammar.outcome_bind, whole]
  rfl

/-- The parser accepts exactly the sentences of its grammar within its limits, with the tree of the
sentence. A sentence outside the limits is refused as too nested, and what is no sentence is refused
as well. -/
theorem Expr.ofTokens_accepts_sentences (tokens : List Token) (finish : Nat) :
    (∀ t, ofTokens tokens finish = .ok t ↔
      ∃ ps, Grammar.Sentence ps t ∧ ps.map Grammar.Placed.lexeme = tokens.map Token.lexeme ∧
        Grammar.nesting ps ≤ 200 ∧ t.height ≤ 200) ∧
    (∀ ps t, Grammar.Sentence ps t →
      ps.map Grammar.Placed.lexeme = tokens.map Token.lexeme →
      200 < Grammar.nesting ps ∨ 200 < t.height →
      ofTokens tokens finish = .error (.tooNested 200)) ∧
    ((¬ ∃ ps t, Grammar.Sentence ps t ∧
        ps.map Grammar.Placed.lexeme = tokens.map Token.lexeme) →
      ∃ refusal, ofTokens tokens finish = .error refusal) := by
  refine ⟨fun t => ⟨sentence_of_ofTokens, ?_⟩, ?_, ?_⟩
  · rintro ⟨ps, hsentence, hlexemes, hfits⟩
    rw [ofTokens_of_sentence finish hsentence hlexemes]
    exact if_pos hfits
  · intro ps t hsentence hlexemes hlimits
    have hnot : ¬ Grammar.Fits ps t := by
      rintro ⟨hnesting, hheight⟩
      simp only [nestingLimit] at hnesting hheight
      omega
    rw [ofTokens_of_sentence finish hsentence hlexemes]
    exact if_neg hnot
  · intro hnone
    cases h : ofTokens tokens finish with
    | error refusal => exact ⟨refusal, rfl⟩
    | ok t =>
      obtain ⟨ps, hsentence, hlexemes, -⟩ := sentence_of_ofTokens h
      exact absurd ⟨ps, t, hsentence, hlexemes⟩ hnone

end Reckoner
