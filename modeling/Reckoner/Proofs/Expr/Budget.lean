import Reckoner.Proofs.Expr.Descent

/-!
# How many calls the parser needs

With a budget of 1201 calls the procedures give the tree or the refusal that the parser gives, on
every list of tokens. Six calls lead from one level to the next, so that six calls for each of the
200 levels are enough to open all of them, and the one call beyond the last level refuses.

A procedure agrees with a production if every run of it comes to the end of the reading, with the
same tokens left and the counter as it was. Agreement is put together as the productions are.
-/
namespace Reckoner
namespace Descent

/-- A run that starts with this level open comes to the same end as a reading of the parser. -/
def Matches {α : Type} (level : Nat) :
    Parsed.View α → EStateM.Result Stop Cursor α → Prop
  | .ok (value, rest), result => ∃ peak, result = .ok value ⟨rest, level, peak⟩
  | .error refusal, result => ∃ c, result = .error (.refused refusal) c

/-- On all tokens a procedure reads what the parser reads. -/
def Agrees {α : Type} (level : Nat) (x : Procedure α) (view : List Token → Parsed.View α) : Prop :=
  ∀ tokens peak, Matches level (view tokens) (x.run ⟨tokens, level, peak⟩)

section Agrees

variable {α β : Type} {level : Nat}

theorem Matches.bind {x : Procedure α} {f : α → Procedure β} {c : Cursor} {view : Parsed.View α}
    {next : α × List Token → Parsed.View β} (hx : Matches level view (x.run c))
    (hf : ∀ value rest peak, view = .ok (value, rest) →
      Matches level (next (value, rest)) ((f value).run ⟨rest, level, peak⟩)) :
    Matches level (view.bind next) ((x >>= f).run c) := by
  rw [EStateM.run_bind]
  cases view with
  | error refusal =>
    obtain ⟨c', hc⟩ := hx
    rw [hc]
    exact ⟨c', rfl⟩
  | ok read =>
    obtain ⟨peak, hc⟩ := hx
    rw [hc]
    exact hf read.1 read.2 peak rfl

theorem run_current_bind (f : Option Lexeme → Procedure α) (c : Cursor) :
    (current >>= f).run c = (f (c.tokens.head?.map Token.lexeme)).run c := rfl

theorem run_advance_bind (f : Unit → Procedure α) (token : Token) (following : List Token)
    (peak : Nat) :
    (advance >>= f).run ⟨token :: following, level, peak⟩ =
      (f ()).run ⟨following, level, peak⟩ := rfl

theorem matches_lift (result : Except Refusal α) (tokens : List Token) (peak : Nat) :
    Matches level (result.bind fun value => .ok (value, tokens))
      ((lift result).run ⟨tokens, level, peak⟩) := by
  cases result with
  | ok value => exact ⟨peak, rfl⟩
  | error refusal => exact ⟨_, rfl⟩

theorem Matches.lift_bind {result : Except Refusal α} {f : α → Procedure β} {tokens : List Token}
    {peak : Nat} {next : α → Parsed.View β}
    (h : ∀ value, Matches level (next value) ((f value).run ⟨tokens, level, peak⟩)) :
    Matches level (result.bind next) ((lift result >>= f).run ⟨tokens, level, peak⟩) := by
  cases result with
  | ok value => exact h value
  | error refusal => exact ⟨_, rfl⟩

theorem agrees_chainRounds {operand : Procedure Measured} {p : Production}
    (h : Agrees level operand p.run) (operator? : Lexeme → Option Operator) {rounds : Nat}
    (value : Measured) {tokens : List Token} (htokens : tokens.length ≤ rounds) (peak : Nat) :
    Matches level (Production.runChain operator? p value tokens)
      ((chainRounds operator? operand rounds value).run ⟨tokens, level, peak⟩) := by
  induction rounds generalizing value tokens peak with
  | zero =>
    obtain rfl := List.eq_nil_of_length_eq_zero (Nat.le_zero.mp htokens)
    rw [Production.runChain_eq]
    exact ⟨peak, rfl⟩
  | succ rounds ih =>
    rw [Production.runChain_eq]
    cases tokens with
    | nil => exact ⟨peak, rfl⟩
    | cons token following =>
      simp only [chainRounds, run_current_bind, List.head?_cons, Option.map_some, Option.bind_some]
      cases operator? token.lexeme with
      | none => exact ⟨peak, rfl⟩
      | some operator =>
        simp only [run_advance_bind]
        refine (h following peak).bind fun right rest peak' hright => ?_
        have hshorter := Production.length_lt_of_run hright
        refine Matches.lift_bind fun joined => ih joined ?_ peak'
        simp only [List.length_cons] at htokens hshorter ⊢
        omega

theorem Agrees.chain {operand : Procedure Measured} {p : Production}
    (h : Agrees level operand p.run) (operator? : Lexeme → Option Operator) :
    Agrees level (chain operator? operand) (Production.chain operator? p).run := by
  intro tokens peak
  rw [Production.run_chain]
  exact (h tokens peak).bind fun first rest peak' _ =>
    agrees_chainRounds h operator? first (Nat.le_refl rest.length) peak'

/-- Opening a level beyond the limit is refused, as the parser does without room. -/
theorem agrees_opened_of_full (x : Procedure α) :
    Agrees nestingLimit (opened x) fun _ => .error (.tooNested nestingLimit) := by
  intro tokens peak
  rw [run_opened_of_lt (Nat.lt_succ_self nestingLimit)]
  exact ⟨_, rfl⟩

theorem Agrees.opened {x : Procedure α} {view : List Token → Parsed.View α}
    (h : Agrees (level + 1) x view) (hlevel : level + 1 ≤ nestingLimit) :
    Agrees level (opened x) view := by
  intro tokens peak
  have hinner := h tokens (max peak (level + 1))
  rw [run_opened_of_le hlevel, EStateM.run_bind]
  cases hview : view tokens with
  | error refusal =>
    rw [hview] at hinner
    obtain ⟨c, hc⟩ := hinner
    rw [hc]
    exact ⟨c, rfl⟩
  | ok read =>
    rw [hview] at hinner
    obtain ⟨peak', hc⟩ := hinner
    rw [hc]
    exact ⟨peak', rfl⟩

theorem closing_bind (finish : Nat) (x : Procedure β) (f : β → Procedure α) :
    closing finish (x >>= f) = x >>= fun value => closing finish (f value) := by
  simp only [closing, bind_assoc]

variable {expression : Procedure Measured} {p : Production}

/-- Rounds of arguments match, if there are as many rounds as tokens. After a comma the next
argument is read by the callee, unless the list is closed there. -/
theorem matches_argumentRounds (finish : Nat) (h : Agrees level expression p.run) {rounds : Nat}
    (values : List Measured) {tokens : List Token} (htokens : tokens.length ≤ rounds)
    (peak : Nat) :
    Matches level (Production.runArguments finish p values tokens)
      ((closing finish (argumentRounds expression rounds values)).run ⟨tokens, level, peak⟩) := by
  induction rounds generalizing values tokens peak with
  | zero =>
    obtain rfl := List.eq_nil_of_length_eq_zero (Nat.le_zero.mp htokens)
    rw [Production.runArguments_eq]
    exact ⟨_, rfl⟩
  | succ rounds ih =>
    have hnext : ∀ following, following.length ≤ rounds → Matches level
        ((p.run following).bind fun next =>
          Production.runArguments finish p (next.1 :: values) next.2)
        ((closing finish (do argumentRounds expression rounds ((← expression) :: values))).run
          ⟨following, level, peak⟩) := by
      intro following hfollowing
      rw [closing_bind]
      refine (h following peak).bind fun next rest peak' hread => ih _ ?_ peak'
      have hshorter := Production.length_lt_of_run hread
      simp only at hshorter ⊢
      omega
    rw [Production.runArguments_eq]
    rcases tokens with _ | ⟨⟨lexeme, position⟩, following⟩
    · exact ⟨_, rfl⟩
    cases lexeme with
    | rightParen => exact ⟨peak, rfl⟩
    | comma =>
      have hfollowing : following.length ≤ rounds := Nat.le_of_succ_le_succ htokens
      rcases following with _ | ⟨⟨lexeme, position'⟩, after⟩
      · exact hnext [] hfollowing
      cases lexeme with
      | rightParen => exact ⟨peak, rfl⟩
      | _ => exact hnext _ hfollowing
    | _ => exact ⟨_, rfl⟩

theorem Agrees.closing_arguments (h : Agrees level expression p.run) (finish : Nat) :
    Agrees level (closing finish (arguments expression)) fun tokens =>
      Parsed.view (Production.arguments finish p tokens) := by
  intro tokens peak
  have hfirst : Matches level
      ((p.run tokens).bind fun first => Production.runArguments finish p [first.1] first.2)
      ((closing finish (do
        let first ← expression
        argumentRounds expression (← get).tokens.length [first])).run ⟨tokens, level, peak⟩) := by
    rw [closing_bind]
    refine (h tokens peak).bind fun first rest peak' _ => ?_
    exact matches_argumentRounds finish h [first] (Nat.le_refl rest.length) peak'
  show Matches level (Parsed.view (Production.arguments finish p tokens)) _
  rw [Production.view_arguments]
  rcases tokens with _ | ⟨⟨lexeme, position⟩, rest⟩
  · exact hfirst
  cases lexeme with
  | rightParen => exact ⟨peak, rfl⟩
  | _ => exact hfirst

theorem Agrees.atom (hexpression : Agrees level expression p.run) (finish : Nat)
    {arguments : Procedure (List Measured)}
    (harguments : Agrees level (closing finish arguments) fun tokens =>
      Parsed.view (Production.arguments finish p tokens)) :
    Agrees level (atom finish expression arguments) (Production.atom finish p).run := by
  intro tokens peak
  rw [Production.run_atom]
  rcases tokens with _ | ⟨⟨lexeme, position⟩, rest⟩
  · exact ⟨_, rfl⟩
  cases lexeme with
  | number value => exact ⟨peak, rfl⟩
  | name text =>
    rcases rest with _ | ⟨⟨lexeme, position'⟩, following⟩
    · exact ⟨peak, rfl⟩
    cases lexeme with
    | leftParen =>
      refine Matches.bind (harguments following peak) fun read after peak' _ => ?_
      exact matches_lift _ after peak'
    | _ => exact ⟨peak, rfl⟩
  | leftParen =>
    refine Matches.bind (hexpression rest peak) fun inner after peak' _ => ?_
    rcases after with _ | ⟨⟨lexeme, position'⟩, following⟩
    · exact ⟨_, rfl⟩
    cases lexeme with
    | rightParen => exact ⟨peak', rfl⟩
    | _ => exact ⟨_, rfl⟩
  | _ => exact ⟨_, rfl⟩

theorem Agrees.signed {operand atom : Procedure Measured} {q : Production}
    (hoperand : Agrees level (Descent.opened operand) p.run) (hatom : Agrees level atom q.run) :
    Agrees level (signed operand atom) (Production.signed p q).run := by
  intro tokens peak
  have hsign : ∀ (sign : Sign) (token : Token) (rest : List Token),
      Matches level (Production.runSign sign p rest)
        ((afterSign sign operand).run ⟨token :: rest, level, peak⟩) := by
    intro sign token rest
    refine Matches.bind (hoperand rest peak) fun read after peak' _ => ?_
    exact matches_lift _ after peak'
  rw [Production.run_signed]
  rcases tokens with _ | ⟨⟨lexeme, position⟩, rest⟩
  · exact hatom [] peak
  cases lexeme with
  | plus => exact hsign .plus ⟨.plus, position⟩ rest
  | minus => exact hsign .minus ⟨.minus, position⟩ rest
  | _ => exact hatom _ peak

theorem Agrees.power {exponent signed : Procedure Measured} {q : Production}
    (hexponent : Agrees level (Descent.opened exponent) p.run)
    (hsigned : Agrees level signed q.run) :
    Agrees level (power exponent signed) (Production.power p q).run := by
  intro tokens peak
  rw [Production.run_power]
  refine (hsigned tokens peak).bind fun base rest peak' _ => ?_
  rw [Production.runExponent]
  rcases rest with _ | ⟨⟨lexeme, position⟩, following⟩
  · exact ⟨peak', rfl⟩
  cases lexeme with
  | doubleStar =>
    refine Matches.bind (hexponent following peak') fun right after peak'' _ => ?_
    exact matches_lift _ after peak''
  | _ => exact ⟨peak', rfl⟩

end Agrees

/-- With `level` levels open and room for `room` more, each of the three calls that open a level
reads what the parser reads, for every budget that is large enough. -/
structure AgreesAt (finish room level : Nat) : Prop where
  expression : ∀ budget, 6 * room ≤ budget →
    Agrees level (Calls.within finish (budget + 1)).expression
      (Level.withRoom finish room).expression.run
  exponent : ∀ budget, 6 * room ≤ budget →
    Agrees level (opened (Calls.within finish budget).power)
      (Level.withRoom finish room).exponent.run
  operand : ∀ budget, 6 * room ≤ budget →
    Agrees level (opened (Calls.within finish budget).signed)
      (Level.withRoom finish room).operand.run

theorem agreesAt_limit (finish : Nat) : AgreesAt finish 0 nestingLimit where
  expression _ _ := agrees_opened_of_full _
  exponent _ _ := agrees_opened_of_full _
  operand _ _ := agrees_opened_of_full _

section Level

variable {finish room level budget : Nat}

/-- An atom needs one call more than its arguments, which call an expression of the next level. In
the same way the procedures outwards each need one call more than the deepest of those that they
call. -/
theorem AgreesAt.atom (h : AgreesAt finish room level) (hbudget : 6 * room ≤ budget) :
    Agrees level (Calls.within finish (budget + 3)).atom
      (Production.atom finish (Level.withRoom finish room).expression).run := by
  have harguments := (h.expression budget hbudget).closing_arguments finish
  exact (h.expression (budget + 1) (by omega)).atom finish harguments

theorem AgreesAt.signed (h : AgreesAt finish room level) (hbudget : 6 * room ≤ budget) :
    Agrees level (Calls.within finish (budget + 4)).signed
      (Level.withRoom finish (room + 1)).operand.run :=
  Agrees.signed (h.operand (budget + 3) (by omega)) (h.atom hbudget)

theorem AgreesAt.power (h : AgreesAt finish room level) (hbudget : 6 * room ≤ budget) :
    Agrees level (Calls.within finish (budget + 5)).power
      (Level.withRoom finish (room + 1)).exponent.run :=
  Agrees.power (h.exponent (budget + 4) (by omega)) (h.signed hbudget)

theorem AgreesAt.term (h : AgreesAt finish room level) (hbudget : 6 * room ≤ budget) :
    Agrees level (Calls.within finish (budget + 6)).term
      (Production.chain Operator.multiplicative?
        (Level.withRoom finish (room + 1)).exponent).run :=
  (h.power hbudget).chain Operator.multiplicative?

/-- Six calls lead from one level to the next: an expression, a term, a power, a signed operand, an
atom and arguments. -/
theorem AgreesAt.outward (h : AgreesAt finish room (level + 1))
    (hlevel : level + 1 ≤ nestingLimit) : AgreesAt finish (room + 1) level := by
  have hsix : ∀ budget, 6 * (room + 1) ≤ budget → ∃ callees, budget = callees + 6 ∧
      6 * room ≤ callees := fun budget hbudget => ⟨budget - 6, by omega, by omega⟩
  constructor
  case expression =>
    intro budget hbudget
    obtain ⟨callees, rfl, hcallees⟩ := hsix budget hbudget
    exact ((h.term hcallees).chain Operator.additive?).opened hlevel
  case exponent =>
    intro budget hbudget
    obtain ⟨callees, rfl, hcallees⟩ := hsix budget hbudget
    exact (h.power (Nat.le_add_right_of_le hcallees : _ ≤ callees + 1)).opened hlevel
  case operand =>
    intro budget hbudget
    obtain ⟨callees, rfl, hcallees⟩ := hsix budget hbudget
    exact (h.signed (Nat.le_add_right_of_le hcallees : _ ≤ callees + 2)).opened hlevel

end Level

theorem agreesAt (finish room level : Nat) (h : level + room = nestingLimit) :
    AgreesAt finish room level := by
  induction room generalizing level with
  | zero =>
    obtain rfl : level = nestingLimit := h
    exact agreesAt_limit finish
  | succ room ih => exact (ih (level + 1) (by omega)).outward (by omega)

/-- What a run answers. -/
def answer {α : Type} : EStateM.Result Stop Cursor α → Except Stop α
  | .ok value _ => .ok value
  | .error stop _ => .error stop

theorem answer_parse (tokens : List Token) (finish : Nat) :
    answer ((parse finish 1201).run (start tokens)) =
      (Expr.ofTokens tokens finish).mapError .refused := by
  have hread := (agreesAt finish nestingLimit 0 (Nat.zero_add _)).expression 1200 (Nat.le_refl _)
    tokens 0
  rw [Expr.ofTokens_eq, parse, EStateM.run_bind, start]
  cases hview : (Level.withRoom finish nestingLimit).expression.run tokens with
  | error refusal =>
    rw [hview] at hread
    obtain ⟨c, hc⟩ := hread
    rw [hc]
    rfl
  | ok read =>
    obtain ⟨value, rest⟩ := read
    rw [hview] at hread
    obtain ⟨peak, hc⟩ := hread
    rw [hc]
    cases rest <;> rfl

end Descent

/-- With a budget of 1201 calls the procedures answer what the parser answers, on every list of
tokens: the budget never runs out, and no level is closed that is not open. The counter is never
above 201. Whatever the budget and wherever a procedure starts, it leaves the counter as it was if
it succeeds. -/
theorem Expr.ofTokens_within_budget (tokens : List Token) (finish : Nat) :
    Descent.answer ((Descent.parse finish 1201).run (Descent.start tokens)) =
      (ofTokens tokens finish).mapError Descent.Stop.refused ∧
    (Descent.last ((Descent.parse finish 1201).run (Descent.start tokens))).peak ≤ 201 ∧
    ∀ budget, (Descent.Calls.within finish budget).AllSteady :=
  ⟨Descent.answer_parse tokens finish,
    (Descent.steady_parse finish 1201).peak (Nat.zero_le _) (Nat.zero_le _),
    Descent.Calls.allSteady_within finish⟩

end Reckoner
