import Reckoner.Expr.Parser
import Reckoner.Proofs.Results

/-!
# What the productions read

A production gives its tree and the tokens that are left, with a proof that these are fewer. `view`
forgets the proof. Each production has one equation for its view in terms of the views of the
productions it uses, and everything else about the parser is proved from these equations.
-/
namespace Reckoner

theorem Measured.limited_eq_ok {e : Expr} {height : Nat} {m : Measured} :
    limited e height = .ok m ↔ height ≤ nestingLimit ∧ m = ⟨e, height⟩ := by
  unfold limited
  split
  · simp only [reduceCtorEq, false_iff]
    omega
  · simp only [Except.ok.injEq]
    constructor
    · intro h
      exact ⟨by omega, h.symm⟩
    · intro h
      exact h.2.symm

namespace Parsed

/-- What is read from the head of some tokens, and the tokens left. -/
abbrev View (α : Type) := Except Refusal (α × List Token)

def pair {α : Type} {tokens : List Token} (read : Parsed α tokens) : α × List Token :=
  (read.value, read.rest)

@[simp] theorem pair_mk {α : Type} {tokens rest : List Token} (value : α)
    (h : rest.length < tokens.length) : (Parsed.mk value rest h).pair = (value, rest) := rfl

@[simp] theorem pair_after {α : Type} {tokens : List Token} (read : Parsed α tokens)
    (token : Token) : (read.after token).pair = read.pair := rfl

/-- The result without the proof that tokens were read. -/
def view {α : Type} {tokens : List Token} (result : Except Refusal (Parsed α tokens)) :
    Parsed.View α := result.map pair

@[simp] theorem view_ok {α : Type} {tokens : List Token} (read : Parsed α tokens) :
    view (.ok read) = .ok read.pair := rfl

@[simp] theorem view_error {α : Type} {tokens : List Token} (refusal : Refusal) :
    view (.error refusal : Except Refusal (Parsed α tokens)) = .error refusal := rfl

/-- Where the next reading depends on the view of the first one only, so does its result. -/
theorem view_bind {α β : Type} {tokens tokens' : List Token}
    {first : Except Refusal (Parsed α tokens)}
    {next : Parsed α tokens → Except Refusal (Parsed β tokens')} {next' : α × List Token → View β}
    (h : ∀ read, view (next read) = next' read.pair) :
    view (first.bind next) = (view first).bind next' := by
  cases first with
  | error refusal => rfl
  | ok read => exact h read

end Parsed

namespace Production

open Parsed (view)

/-- The tree at the head of the tokens and the tokens left. -/
def run (p : Production) (tokens : List Token) : Parsed.View Measured := view (p tokens)

/-- Some reading with this view. -/
def readingOf {α : Type} (value : α) (rest : List Token) : Parsed α (⟨.comma, 0⟩ :: rest) :=
  ⟨value, rest, Nat.lt_succ_self _⟩

/-- Fewer tokens are left than there were. -/
theorem length_lt_of_run {p : Production} {tokens : List Token} {read : Measured × List Token}
    (h : p.run tokens = .ok read) : read.2.length < tokens.length := by
  rw [run] at h
  cases hp : p tokens with
  | error refusal => simp [hp] at h
  | ok parsed =>
    rw [hp, Parsed.view_ok] at h
    cases h
    exact parsed.shorter

/-- The rest of a chain after an operand that was read. -/
def runChain (operator? : Lexeme → Option Operator) (operand : Production) (value : Measured)
    (rest : List Token) : Parsed.View Measured :=
  view (chainFrom operator? operand (readingOf value rest))

theorem view_chainFrom (operator? : Lexeme → Option Operator) (operand : Production)
    {tokens : List Token} (read : Parsed Measured tokens) :
    view (chainFrom operator? operand read) = runChain operator? operand read.value read.rest := by
  have go : ∀ n (tokens tokens' : List Token) (read : Parsed Measured tokens)
      (read' : Parsed Measured tokens'), read.pair = read'.pair → read.rest.length ≤ n →
      view (chainFrom operator? operand read) = view (chainFrom operator? operand read') := by
    intro n
    induction n with
    | zero =>
      rintro tokens tokens' ⟨value, rest, h⟩ ⟨value', rest', h'⟩ he hn
      obtain ⟨rfl, rfl⟩ := Prod.mk.inj he
      obtain rfl := List.eq_nil_of_length_eq_zero (Nat.le_zero.mp hn)
      rw [chainFrom, chainFrom]
      rfl
    | succ n ih =>
      rintro tokens tokens' ⟨value, rest, h⟩ ⟨value', rest', h'⟩ he hn
      obtain ⟨rfl, rfl⟩ := Prod.mk.inj he
      rw [chainFrom, chainFrom]
      cases rest with
      | nil => rfl
      | cons token following =>
        simp only
        cases operator? token.lexeme with
        | none => rfl
        | some operator =>
          cases operand following with
          | error refusal => rfl
          | ok right =>
            simp only [bind, Except.bind]
            cases value.join operator right.value with
            | error refusal => rfl
            | ok joined =>
              refine ih _ _ _ _ rfl ?_
              have := right.shorter
              simp only [List.length_cons] at hn
              simp only
              omega
  exact go _ _ _ _ _ rfl (Nat.le_refl _)

theorem runChain_eq (operator? : Lexeme → Option Operator) (operand : Production)
    (value : Measured) (rest : List Token) :
    runChain operator? operand value rest =
      match rest with
      | [] => .ok (value, [])
      | token :: following =>
        match operator? token.lexeme with
        | none => .ok (value, token :: following)
        | some operator =>
          (operand.run following).bind fun right =>
            (value.join operator right.1).bind fun joined =>
              runChain operator? operand joined right.2 := by
  rw [runChain, readingOf, chainFrom]
  cases rest with
  | nil => rfl
  | cons token following =>
    simp only
    cases operator? token.lexeme with
    | none => rfl
    | some operator =>
      refine Parsed.view_bind fun right => ?_
      show view ((value.join operator right.value).bind _) = _
      simp only [Parsed.pair]
      cases value.join operator right.value with
      | error refusal => rfl
      | ok joined => exact view_chainFrom operator? operand _

theorem run_chain (operator? : Lexeme → Option Operator) (operand : Production)
    (tokens : List Token) :
    (chain operator? operand).run tokens =
      (operand.run tokens).bind fun first => runChain operator? operand first.1 first.2 :=
  Parsed.view_bind fun _ => view_chainFrom operator? operand _

/-- The rest of the arguments after those that were read, which are in reverse. -/
def runArguments (finish : Nat) (expression : Production) (values : List Measured)
    (rest : List Token) : Parsed.View (List Measured) :=
  view (argumentsFrom finish expression (readingOf values rest))

theorem view_argumentsFrom (finish : Nat) (expression : Production) {tokens : List Token}
    (read : Parsed (List Measured) tokens) :
    view (argumentsFrom finish expression read) =
      runArguments finish expression read.value read.rest := by
  have go : ∀ n (tokens tokens' : List Token) (read : Parsed (List Measured) tokens)
      (read' : Parsed (List Measured) tokens'), read.pair = read'.pair → read.rest.length ≤ n →
      view (argumentsFrom finish expression read) =
        view (argumentsFrom finish expression read') := by
    intro n
    induction n with
    | zero =>
      rintro tokens tokens' ⟨values, rest, h⟩ ⟨values', rest', h'⟩ he hn
      obtain ⟨rfl, rfl⟩ := Prod.mk.inj he
      obtain rfl := List.eq_nil_of_length_eq_zero (Nat.le_zero.mp hn)
      rw [argumentsFrom, argumentsFrom]
      rfl
    | succ n ih =>
      rintro tokens tokens' ⟨values, rest, h⟩ ⟨values', rest', h'⟩ he hn
      obtain ⟨rfl, rfl⟩ := Prod.mk.inj he
      unfold argumentsFrom
      dsimp only at hn ⊢
      split
      · rfl
      · rfl
      · next _ following _ =>
        cases expression following with
        | error refusal => rfl
        | ok next =>
          refine ih _ _ _ _ rfl ?_
          have := next.shorter
          simp only [List.length_cons] at hn
          simp only
          omega
      · rfl
  exact go _ _ _ _ _ rfl (Nat.le_refl _)

theorem runArguments_eq (finish : Nat) (expression : Production) (values : List Measured)
    (rest : List Token) :
    runArguments finish expression values rest =
      match rest with
      | ⟨.rightParen, _⟩ :: rest => .ok (values.reverse, rest)
      | ⟨.comma, _⟩ :: ⟨.rightParen, _⟩ :: rest => .ok (values.reverse, rest)
      | ⟨.comma, _⟩ :: following =>
        (expression.run following).bind fun next =>
          runArguments finish expression (next.1 :: values) next.2
      | others => .error (.malformed (positionOf finish others)) := by
  rw [runArguments, readingOf, argumentsFrom]
  rcases rest with _ | ⟨⟨lexeme, _⟩, following⟩
  · rfl
  cases lexeme with
  | comma =>
    rcases following with _ | ⟨⟨lexeme, _⟩, after⟩
    · exact Parsed.view_bind fun _ => view_argumentsFrom finish expression _
    cases lexeme with
    | rightParen => rfl
    | _ => exact Parsed.view_bind fun _ => view_argumentsFrom finish expression _
  | _ => rfl

theorem view_arguments (finish : Nat) (expression : Production) (tokens : List Token) :
    view (arguments finish expression tokens) =
      match tokens with
      | ⟨.rightParen, _⟩ :: rest => .ok ([], rest)
      | tokens =>
        (expression.run tokens).bind fun first =>
          runArguments finish expression [first.1] first.2 := by
  rcases tokens with _ | ⟨⟨lexeme, _⟩, rest⟩
  · exact Parsed.view_bind fun _ => view_argumentsFrom finish expression _
  cases lexeme with
  | rightParen => rfl
  | _ => exact Parsed.view_bind fun _ => view_argumentsFrom finish expression _

/-- After a comma that does not close the arguments, one more of them is read. -/
theorem runArguments_comma (finish : Nat) (expression : Production) (values : List Measured)
    (position : Nat) {token : Token} (following : List Token) (h : token.lexeme ≠ .rightParen) :
    runArguments finish expression values (⟨.comma, position⟩ :: token :: following) =
      (expression.run (token :: following)).bind fun next =>
        runArguments finish expression (next.1 :: values) next.2 := by
  rw [runArguments_eq]
  obtain ⟨lexeme, _⟩ := token
  cases lexeme with
  | rightParen => contradiction
  | _ => rfl

/-- Arguments that do not close at once are read as if a comma stood before them. -/
theorem view_arguments_of_ne (finish : Nat) (expression : Production) (position : Nat)
    {token : Token} (following : List Token) (h : token.lexeme ≠ .rightParen) :
    view (arguments finish expression (token :: following)) =
      runArguments finish expression [] (⟨.comma, position⟩ :: token :: following) := by
  rw [runArguments_comma finish expression [] position following h, view_arguments]
  obtain ⟨lexeme, _⟩ := token
  cases lexeme with
  | rightParen => contradiction
  | _ => rfl

theorem run_atom (finish : Nat) (expression : Production) (tokens : List Token) :
    (atom finish expression).run tokens =
      match tokens with
      | ⟨.number value, _⟩ :: rest => .ok (⟨.number value, 1⟩, rest)
      | ⟨.name function, _⟩ :: ⟨.leftParen, _⟩ :: rest =>
        (view (arguments finish expression rest)).bind fun read =>
          (Measured.limited (.call function (read.1.map Measured.expr)) (callHeight read.1)).bind
            fun call => .ok (call, read.2)
      | ⟨.name text, _⟩ :: rest => .ok (⟨.name text, 1⟩, rest)
      | ⟨.leftParen, _⟩ :: rest =>
        (expression.run rest).bind fun inner =>
          match inner.2 with
          | ⟨.rightParen, _⟩ :: after => .ok (inner.1, after)
          | others => .error (.malformed (positionOf finish others))
      | others => .error (.malformed (positionOf finish others)) := by
  rcases tokens with _ | ⟨⟨lexeme, _⟩, rest⟩
  · rfl
  cases lexeme with
  | name function =>
    rcases rest with _ | ⟨⟨lexeme, _⟩, rest⟩
    · rfl
    cases lexeme with
    | leftParen =>
      refine Parsed.view_bind fun read => ?_
      show view (Except.bind _ _) = _
      simp only [Parsed.pair]
      cases Measured.limited (.call function (read.value.map Measured.expr))
        (callHeight read.value) <;> rfl
    | _ => rfl
  | leftParen =>
    refine Parsed.view_bind fun inner => ?_
    obtain ⟨value, rest, _⟩ := inner
    rcases rest with _ | ⟨⟨lexeme, _⟩, after⟩
    · rfl
    cases lexeme <;> rfl
  | _ => rfl

/-- The operand of a sign that was just read. -/
def runSign (sign : Sign) (operand : Production) (rest : List Token) : Parsed.View Measured :=
  (operand.run rest).bind fun read =>
    (Measured.limited (.signed sign read.1.expr) (read.1.height + 1)).bind fun signed =>
      .ok (signed, read.2)

theorem view_afterSign (sign : Sign) (operand : Production) (rest : List Token) :
    view (afterSign sign operand rest) = runSign sign operand rest := by
  refine Parsed.view_bind fun read => ?_
  show view (Except.bind _ _) = _
  simp only [Parsed.pair]
  cases Measured.limited (.signed sign read.value.expr) (read.value.height + 1) <;> rfl

theorem run_signed (operand atom : Production) (tokens : List Token) :
    (signed operand atom).run tokens =
      match tokens with
      | ⟨.plus, _⟩ :: rest => runSign .plus operand rest
      | ⟨.minus, _⟩ :: rest => runSign .minus operand rest
      | tokens => atom.run tokens := by
  rcases tokens with _ | ⟨⟨lexeme, _⟩, rest⟩
  · rfl
  cases lexeme with
  | plus =>
    show view (Except.bind _ _) = runSign .plus operand rest
    rw [← view_afterSign]
    cases afterSign .plus operand rest <;> rfl
  | minus =>
    show view (Except.bind _ _) = runSign .minus operand rest
    rw [← view_afterSign]
    cases afterSign .minus operand rest <;> rfl
  | _ => rfl

/-- An exponent of a base that was read, if one follows. -/
def runExponent (exponent : Production) (base : Measured × List Token) : Parsed.View Measured :=
  match base.2 with
  | ⟨.doubleStar, _⟩ :: following =>
    (exponent.run following).bind fun right =>
      (base.1.join .pow right.1).bind fun joined => .ok (joined, right.2)
  | _ => .ok base

theorem run_power (exponent signed : Production) (tokens : List Token) :
    (power exponent signed).run tokens = (signed.run tokens).bind (runExponent exponent) := by
  rw [run, power]
  refine Parsed.view_bind fun base => ?_
  obtain ⟨value, rest, _⟩ := base
  rcases rest with _ | ⟨⟨lexeme, _⟩, following⟩
  · rfl
  cases lexeme with
  | doubleStar =>
    refine Parsed.view_bind fun right => ?_
    show view (Except.bind _ _) = _
    simp only [Parsed.pair]
    cases value.join .pow right.value <;> rfl
  | _ => rfl

end Production

/-- The tree that was read, if no token is left. -/
def Expr.whole (read : Measured × List Token) : Except Refusal Expr :=
  match read.2 with
  | [] => .ok read.1.expr
  | token :: _ => .error (.malformed token.position)

/-- The tree of all tokens, in terms of what the outermost production reads. -/
theorem Expr.ofTokens_eq (tokens : List Token) (finish : Nat) :
    Expr.ofTokens tokens finish =
      ((Level.withRoom finish nestingLimit).expression.run tokens).bind whole := by
  rw [Production.run, ofTokens]
  cases (Level.withRoom finish nestingLimit).expression tokens <;> rfl

end Reckoner
