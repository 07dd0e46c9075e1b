import Reckoner.Proofs.Expr.Reading

/-!
# The parser as procedures that call each other

The six productions once more, as procedures that share a cursor. The cursor holds the tokens that
are left and a counter of open levels, which three of the procedures raise before they call another
one and lower after it. A budget says how many procedures may be active at the same time: each runs
with one call less than its caller, and a call for which nothing is left stops the run.

Whatever the budget, a procedure that succeeds leaves the counter as it was: a level that is opened
is closed on every path that does not stop the run. So calls that follow each other, as those for
two operands or two arguments do, start with the same counter.
-/
namespace Reckoner.Descent

/-- Why a run stops. -/
inductive Stop where
  | refused (refusal : Refusal)
  /-- a procedure is called and the budget has no call left -/
  | exhausted
  /-- a level is closed and none is open -/
  | underflow

structure Cursor where
  tokens : List Token
  /-- the levels that are open -/
  level : Nat
  /-- the most levels that were ever open -/
  peak : Nat

abbrev Procedure (α : Type) := EStateM Stop Cursor α

section Steps

variable {α : Type}

def lift (result : Except Refusal α) : Procedure α :=
  match result with
  | .ok value => pure value
  | .error refusal => throw (.refused refusal)

def current : Procedure (Option Lexeme) :=
  return (← get).tokens.head?.map Token.lexeme

def advance : Procedure Unit :=
  modify fun c => { c with tokens := c.tokens.tail }

def malformed (finish : Nat) : Procedure α := do
  throw (.refused (.malformed (positionOf finish (← get).tokens)))

def expect (finish : Nat) (lexeme : Lexeme) : Procedure Unit := do
  if (← current) = some lexeme then advance else malformed finish

def enter : Procedure Unit := do
  modify fun c => { c with level := c.level + 1, peak := max c.peak (c.level + 1) }
  if nestingLimit < (← get).level then throw (.refused (.tooNested nestingLimit))

def leave : Procedure Unit := do
  match (← get).level with
  | 0 => throw .underflow
  | level + 1 => modify fun c => { c with level }

/-- Runs a procedure with one more level open. -/
def opened (inner : Procedure α) : Procedure α := do
  enter
  let value ← inner
  leave
  return value

/-- Runs a procedure and reads the closing parenthesis after it. -/
def closing (finish : Nat) (inner : Procedure α) : Procedure α := do
  let value ← inner
  expect finish .rightParen
  return value

end Steps

/-- Joins operands from the left as long as an operator follows. A round reads a token, so there are
at most as many rounds as tokens. -/
def chainRounds (operator? : Lexeme → Option Operator) (operand : Procedure Measured) :
    Nat → Measured → Procedure Measured
  | 0, read => return read
  | rounds + 1, read => do
    match (← current).bind operator? with
    | none => return read
    | some operator =>
      advance
      let right ← operand
      chainRounds operator? operand rounds (← lift (read.join operator right))

def chain (operator? : Lexeme → Option Operator) (operand : Procedure Measured) :
    Procedure Measured := do
  let first ← operand
  chainRounds operator? operand (← get).tokens.length first

/-- The arguments after those that were read, which are in reverse. -/
def argumentRounds (expression : Procedure Measured) :
    Nat → List Measured → Procedure (List Measured)
  | 0, read => return read.reverse
  | rounds + 1, read => do
    if (← current) = some .comma then
      advance
      if (← current) = some .rightParen then return read.reverse
      else argumentRounds expression rounds ((← expression) :: read)
    else return read.reverse

def arguments (expression : Procedure Measured) : Procedure (List Measured) := do
  if (← current) = some .rightParen then return []
  else
    let first ← expression
    argumentRounds expression (← get).tokens.length [first]

def atom (finish : Nat) (expression : Procedure Measured)
    (arguments : Procedure (List Measured)) : Procedure Measured := do
  match ← current with
  | some (.number value) =>
    advance
    return ⟨.number value, 1⟩
  | some (.name text) =>
    advance
    if (← current) = some .leftParen then
      advance
      let read ← closing finish arguments
      lift (Measured.limited (.call text (read.map Measured.expr)) (Production.callHeight read))
    else return ⟨.name text, 1⟩
  | some .leftParen =>
    advance
    closing finish expression
  | _ => malformed finish

def afterSign (sign : Sign) (operand : Procedure Measured) : Procedure Measured := do
  advance
  let read ← opened operand
  lift (Measured.limited (.signed sign read.expr) (read.height + 1))

def signed (operand atom : Procedure Measured) : Procedure Measured := do
  match ← current with
  | some .plus => afterSign .plus operand
  | some .minus => afterSign .minus operand
  | _ => atom

def power (exponent signed : Procedure Measured) : Procedure Measured := do
  let base ← signed
  if (← current) = some .doubleStar then
    advance
    let right ← opened exponent
    lift (base.join .pow right)
  else return base

/-- The procedures that may be called. -/
structure Calls where
  expression : Procedure Measured
  term : Procedure Measured
  power : Procedure Measured
  signed : Procedure Measured
  atom : Procedure Measured
  arguments : Procedure (List Measured)

namespace Calls

/-- No call is left. -/
def none : Calls where
  expression := throw .exhausted
  term := throw .exhausted
  power := throw .exhausted
  signed := throw .exhausted
  atom := throw .exhausted
  arguments := throw .exhausted

/-- The procedures, where those that they call are given. -/
def calling (finish : Nat) (callee : Calls) : Calls where
  expression := opened (chain Operator.additive? callee.term)
  term := chain Operator.multiplicative? callee.power
  power := Descent.power callee.power callee.signed
  signed := Descent.signed callee.signed callee.atom
  atom := Descent.atom finish callee.expression callee.arguments
  arguments := Descent.arguments callee.expression

/-- The procedures where this many may be active at the same time. -/
def within (finish : Nat) : Nat → Calls
  | 0 => none
  | budget + 1 => calling finish (within finish budget)

end Calls

/-- The tree of all tokens, read with a budget of calls. -/
def parse (finish budget : Nat) : Procedure Expr := do
  let whole ← (Calls.within finish budget).expression
  if (← get).tokens.isEmpty then return whole.expr else malformed finish

/-- A run starts at the first token with no level open. -/
def start (tokens : List Token) : Cursor := ⟨tokens, 0, 0⟩

section Steady

variable {α β : Type} {x : Procedure α}

/-- The cursor at the end of a run. -/
def last : EStateM.Result Stop Cursor α → Cursor
  | .ok _ c => c
  | .error _ c => c

/-- A success leaves the counter as it was, and if the counter is within the limit at the start, it
is never more than one above it. -/
structure Steady (x : Procedure α) : Prop where
  level : ∀ {c value c'}, x.run c = .ok value c' → c'.level = c.level
  peak : ∀ {c}, c.level ≤ nestingLimit → c.peak ≤ nestingLimit + 1 →
    (last (x.run c)).peak ≤ nestingLimit + 1

theorem Steady.bind {f : α → Procedure β} (hx : Steady x) (hf : ∀ value, Steady (f value)) :
    Steady (x >>= f) where
  level {c value c'} h := by
    rw [EStateM.run_bind] at h
    cases hc : x.run c with
    | error stop c'' => simp [hc] at h
    | ok first c'' =>
      rw [hc] at h
      rw [(hf first).level h, hx.level hc]
  peak {c} hlevel hpeak := by
    have hfirst := hx.peak hlevel hpeak
    rw [EStateM.run_bind]
    cases hc : x.run c with
    | error stop c'' =>
      rw [hc] at hfirst
      exact hfirst
    | ok first c'' =>
      rw [hc] at hfirst
      exact (hf first).peak (by rw [hx.level hc]; exact hlevel) hfirst

theorem steady_pure (value : α) : Steady (pure value : Procedure α) where
  level h := by cases h; rfl
  peak _ hpeak := hpeak

theorem steady_throw (stop : Stop) : Steady (throw stop : Procedure α) where
  level h := by cases h
  peak _ hpeak := hpeak

theorem steady_get : Steady (get : Procedure Cursor) where
  level h := by cases h; rfl
  peak _ hpeak := hpeak

theorem steady_current : Steady current := steady_get.bind fun _ => steady_pure _

theorem steady_advance : Steady advance where
  level h := by cases h; rfl
  peak _ hpeak := hpeak

theorem steady_malformed (finish : Nat) : Steady (malformed finish : Procedure α) :=
  steady_get.bind fun _ => steady_throw _

theorem steady_lift (result : Except Refusal α) : Steady (lift result) := by
  cases result with
  | ok value => exact steady_pure value
  | error refusal => exact steady_throw _

theorem steady_expect (finish : Nat) (lexeme : Lexeme) : Steady (expect finish lexeme) := by
  refine steady_current.bind fun found => ?_
  split
  · exact steady_advance
  · exact steady_malformed finish

/-- Opening a level raises the counter, and refuses above the limit. -/
theorem run_enter (c : Cursor) :
    enter.run c =
      if nestingLimit < c.level + 1 then
        .error (.refused (.tooNested nestingLimit))
          ⟨c.tokens, c.level + 1, max c.peak (c.level + 1)⟩
      else .ok () ⟨c.tokens, c.level + 1, max c.peak (c.level + 1)⟩ := by
  simp only [enter, EStateM.run_bind, EStateM.run_modify, EStateM.run_get]
  split <;> rfl

theorem run_opened_of_lt {c : Cursor} (h : nestingLimit < c.level + 1) :
    (opened x).run c =
      .error (.refused (.tooNested nestingLimit))
        ⟨c.tokens, c.level + 1, max c.peak (c.level + 1)⟩ := by
  simp only [opened, EStateM.run_bind, run_enter, if_pos h]

theorem run_opened_of_le {c : Cursor} (h : c.level + 1 ≤ nestingLimit) :
    (opened x).run c =
      (x >>= fun value => leave >>= fun _ => pure value : Procedure α).run
        ⟨c.tokens, c.level + 1, max c.peak (c.level + 1)⟩ := by
  simp only [opened, EStateM.run_bind, run_enter, if_neg (Nat.not_lt.mpr h)]

/-- A level that was opened is closed, so that the counter is what it was. Beyond the limit nothing
else runs, and the counter stays one above it. -/
theorem Steady.opened (hx : Steady x) : Steady (opened x) where
  level {c value c'} h := by
    by_cases hlimit : c.level + 1 ≤ nestingLimit
    · rw [run_opened_of_le hlimit, EStateM.run_bind] at h
      cases hc : x.run ⟨c.tokens, c.level + 1, max c.peak (c.level + 1)⟩ with
      | error stop c'' => simp [hc] at h
      | ok first c'' =>
        obtain ⟨tokens, level, peak⟩ := c''
        obtain rfl : level = c.level + 1 := hx.level hc
        rw [hc] at h
        cases h
        rfl
    · rw [run_opened_of_lt (Nat.not_le.mp hlimit)] at h
      cases h
  peak {c} hlevel hpeak := by
    by_cases hlimit : c.level + 1 ≤ nestingLimit
    · have hinner := hx.peak (c := ⟨c.tokens, c.level + 1, max c.peak (c.level + 1)⟩) hlimit
        (by simp only; omega)
      rw [run_opened_of_le hlimit, EStateM.run_bind]
      cases hc : x.run ⟨c.tokens, c.level + 1, max c.peak (c.level + 1)⟩ with
      | error stop c'' =>
        rw [hc] at hinner
        exact hinner
      | ok first c'' =>
        obtain ⟨tokens, level, peak⟩ := c''
        obtain rfl : level = c.level + 1 := hx.level hc
        rw [hc] at hinner
        exact hinner
    · rw [run_opened_of_lt (Nat.not_le.mp hlimit)]
      show max c.peak (c.level + 1) ≤ _
      omega

theorem Steady.closing (hx : Steady x) (finish : Nat) : Steady (closing finish x) :=
  hx.bind fun value => (steady_expect finish .rightParen).bind fun _ => steady_pure value

variable {operand : Procedure Measured}

theorem Steady.chain (operator? : Lexeme → Option Operator) (h : Steady operand) :
    Steady (chain operator? operand) := by
  have hrounds : ∀ rounds read, Steady (chainRounds operator? operand rounds read) := by
    intro rounds
    induction rounds with
    | zero => exact steady_pure
    | succ rounds ih =>
      refine fun read => steady_current.bind fun found => ?_
      split
      · exact steady_pure read
      · exact steady_advance.bind fun _ => h.bind fun right => (steady_lift _).bind ih
  exact h.bind fun first => steady_get.bind fun c => hrounds c.tokens.length first

theorem Steady.arguments (h : Steady operand) : Steady (arguments operand) := by
  have hrounds : ∀ rounds read, Steady (argumentRounds operand rounds read) := by
    intro rounds
    induction rounds with
    | zero => exact fun read => steady_pure read.reverse
    | succ rounds ih =>
      refine fun read => steady_current.bind fun found => ?_
      split
      · refine steady_advance.bind fun _ => steady_current.bind fun found => ?_
        split
        · exact steady_pure read.reverse
        · exact h.bind fun next => ih (next :: read)
      · exact steady_pure read.reverse
  refine steady_current.bind fun found => ?_
  split
  · exact steady_pure []
  · exact h.bind fun first => steady_get.bind fun c => hrounds c.tokens.length [first]

theorem Steady.atom (finish : Nat) (hexpression : Steady operand)
    {arguments : Procedure (List Measured)} (harguments : Steady arguments) :
    Steady (atom finish operand arguments) := by
  refine steady_current.bind fun found => ?_
  split
  · exact steady_advance.bind fun _ => steady_pure _
  · refine steady_advance.bind fun _ => steady_current.bind fun found => ?_
    split
    · exact steady_advance.bind fun _ => (harguments.closing finish).bind fun read => steady_lift _
    · exact steady_pure _
  · exact steady_advance.bind fun _ => hexpression.closing finish
  · exact steady_malformed finish

theorem Steady.signed (hoperand : Steady operand) {atom : Procedure Measured}
    (hatom : Steady atom) : Steady (signed operand atom) := by
  have hsign : ∀ sign, Steady (afterSign sign operand) := fun sign =>
    steady_advance.bind fun _ => hoperand.opened.bind fun read => steady_lift _
  refine steady_current.bind fun found => ?_
  split
  · exact hsign .plus
  · exact hsign .minus
  · exact hatom

theorem Steady.power (hexponent : Steady operand) {signed : Procedure Measured}
    (hsigned : Steady signed) : Steady (power operand signed) := by
  refine hsigned.bind fun base => steady_current.bind fun found => ?_
  split
  · exact steady_advance.bind fun _ => hexponent.opened.bind fun right => steady_lift _
  · exact steady_pure base

end Steady

/-- All procedures are steady. -/
structure Calls.AllSteady (calls : Calls) : Prop where
  expression : Steady calls.expression
  term : Steady calls.term
  power : Steady calls.power
  signed : Steady calls.signed
  atom : Steady calls.atom
  arguments : Steady calls.arguments

theorem Calls.allSteady_within (finish budget : Nat) : AllSteady (within finish budget) := by
  induction budget with
  | zero => constructor <;> exact steady_throw .exhausted
  | succ budget ih =>
    exact {
      expression := (ih.term.chain _).opened
      term := ih.power.chain _
      power := ih.power.power ih.signed
      signed := ih.signed.signed ih.atom
      atom := ih.expression.atom finish ih.arguments
      arguments := ih.expression.arguments }

theorem steady_parse (finish budget : Nat) : Steady (parse finish budget) := by
  refine (Calls.allSteady_within finish budget).expression.bind fun whole =>
    steady_get.bind fun c => ?_
  split
  · exact steady_pure whole.expr
  · exact steady_malformed finish

end Reckoner.Descent
