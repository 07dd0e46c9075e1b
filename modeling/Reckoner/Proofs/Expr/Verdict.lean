import Reckoner.Proofs.Expr.Grammar
import Reckoner.Proofs.Expr.Reading

/-!
# How a reading ends

The parser never looks further than the next token. A verdict on some tokens says so: what is read,
or the place of a refusal, is settled by the tokens up to there and the lexeme that is next, and it
is the same whatever else follows. What is read is a phrase, and what stands before a refusal begins
one.

Verdicts are put together as the productions are. What a reading takes after another one is
described by what it completes, so that the loops need not remember what was read before.
-/
namespace Reckoner
namespace Grammar

/-- These lexemes are a phrase of this kind, with `k` levels open around it. -/
def IsPhrase (s : Symbol) (k : Nat) (ls : List Lexeme) : Prop :=
  ∃ ps t, Derives s k ps t ∧ ps.map Placed.lexeme = ls

/-- With some lexemes after them, these are as they should be. -/
def Begins (language : List Lexeme → Prop) (ls : List Lexeme) : Prop :=
  ∃ more, language (ls ++ more)

/-- After every list of the one kind, these make it one of the other. -/
def Completes (front whole : List Lexeme → Prop) (ls : List Lexeme) : Prop :=
  ∀ start, front start → whole (start ++ ls)

section Phrase

variable {s : Symbol} {k : Nat} {ls rs : List Lexeme}

/-- A name is a phrase of every kind. -/
theorem derives_name (s : Symbol) (k : Nat) (text : String) :
    Derives s k [⟨.name text, k⟩] (.name text) := by
  have hsigned : Derives .signed k [⟨.name text, k⟩] (.name text) := .ofAtom (.name text)
  cases s with
  | atom => exact .name text
  | signed => exact hsigned
  | power => exact .ofSigned hsigned
  | term => exact .ofPower (.ofSigned hsigned)
  | expression => exact .ofTerm (.ofPower (.ofSigned hsigned))

theorem exists_isPhrase (s : Symbol) (k : Nat) : ∃ ls, IsPhrase s k ls :=
  ⟨_, _, _, derives_name s k "", rfl⟩

theorem IsPhrase.mono {s' : Symbol} (h : IsPhrase s k ls)
    (hle : ∀ {ps t}, Derives s k ps t → Derives s' k ps t) : IsPhrase s' k ls := by
  obtain ⟨ps, t, hd, hps⟩ := h
  exact ⟨ps, t, hle hd, hps⟩

theorem IsPhrase.join {s' s'' : Symbol} {k' : Nat} (hl : IsPhrase s k ls) (hr : IsPhrase s' k' rs)
    {x : Lexeme} {op : Operator}
    (hjoin : ∀ {ps l qs r}, Derives s k ps l → Derives s' k' qs r →
      Derives s'' k (ps ++ ⟨x, k⟩ :: qs) (.binary op l r)) :
    IsPhrase s'' k (ls ++ x :: rs) := by
  obtain ⟨ps, l, hl, rfl⟩ := hl
  obtain ⟨qs, r, hr, rfl⟩ := hr
  exact ⟨_, _, hjoin hl hr, by simp⟩

theorem IsPhrase.sign (h : IsPhrase .signed (k + 1) ls) (sign : Sign) :
    IsPhrase .signed k (sign.lexeme :: ls) := by
  obtain ⟨ps, t, hd, rfl⟩ := h
  exact ⟨_, _, .sign sign hd, rfl⟩

theorem IsPhrase.parenthesized (h : IsPhrase .expression (k + 1) ls) :
    IsPhrase .atom k (.leftParen :: ls ++ [.rightParen]) := by
  obtain ⟨ps, t, hd, rfl⟩ := h
  exact ⟨_, _, .parenthesized hd, by simp⟩

/-- One or more arguments, a comma apart. -/
def IsArguments (k : Nat) (ls : List Lexeme) : Prop :=
  ∃ arguments : List (List Placed × Expr), arguments ≠ [] ∧
    (∀ a ∈ arguments, Derives .expression (k + 1) a.1 a.2) ∧
    (separated k (arguments.map Prod.fst)).map Placed.lexeme = ls

/-- What stands in a call after its opening parenthesis. -/
def IsCallRest (k : Nat) (ls : List Lexeme) : Prop :=
  ∀ function, IsPhrase .atom k (.name function :: .leftParen :: ls)

theorem IsPhrase.isArguments (h : IsPhrase .expression (k + 1) ls) : IsArguments k ls := by
  obtain ⟨ps, t, hd, rfl⟩ := h
  exact ⟨[(ps, t)], by simp, by simpa using hd, by simp⟩

theorem IsArguments.concat (h : IsArguments k ls) (hr : IsPhrase .expression (k + 1) rs) :
    IsArguments k (ls ++ .comma :: rs) := by
  obtain ⟨arguments, hne, hall, rfl⟩ := h
  obtain ⟨ps, t, hd, rfl⟩ := hr
  refine ⟨arguments ++ [(ps, t)], by simp, ?_, ?_⟩
  · intro a ha
    rcases List.mem_append.mp ha with ha | ha
    · exact hall a ha
    · rw [List.mem_singleton.mp ha]
      exact hd
  · simp [separated_concat k (by simpa using hne : arguments.map Prod.fst ≠ [])]

theorem isCallRest_nil (k : Nat) : IsCallRest k [.rightParen] :=
  fun function => ⟨_, _, .call function [] [] (.inl rfl) (by simp), rfl⟩

theorem IsArguments.close (h : IsArguments k ls) : IsCallRest k (ls ++ [.rightParen]) := by
  obtain ⟨arguments, -, hall, rfl⟩ := h
  exact fun function => ⟨_, _, .call function arguments [] (.inl rfl) hall, by simp⟩

theorem IsArguments.close_comma (h : IsArguments k ls) :
    IsCallRest k (ls ++ [.comma, .rightParen]) := by
  obtain ⟨arguments, hne, hall, rfl⟩ := h
  exact fun function => ⟨_, _, .call function arguments _ (.inr ⟨rfl, hne⟩) hall, by simp⟩

end Phrase

/-- The lexeme that is next. -/
def peek (tokens : List Token) : Option Lexeme := tokens.head?.map Token.lexeme

theorem peek_append {rest rest' : List Token} (h : peek rest' = peek rest) (done : List Token) :
    peek (done ++ rest') = peek (done ++ rest) := by
  cases done with
  | nil => exact h
  | cons token done => rfl

/-- How a reading of these tokens ends. Unless a limit is met, the end depends only on the tokens
before it and the lexeme that is next. -/
inductive Verdict {α : Type} (finish : Nat) (language : List Lexeme → Prop)
    (read : List Token → Parsed.View α) (tokens : List Token) : Prop where
  | ok (done rest : List Token) (value : α) (htokens : tokens = done ++ rest)
      (hlanguage : language (done.map Token.lexeme))
      (hread : ∀ rest', peek rest' = peek rest → read (done ++ rest') = .ok (value, rest'))
  | malformed (done rest : List Token) (htokens : tokens = done ++ rest)
      (hbegins : Begins language (done.map Token.lexeme))
      (hread : ∀ rest', peek rest' = peek rest →
        read (done ++ rest') = .error (.malformed (positionOf finish rest')))
  | tooNested (hread : read tokens = .error (.tooNested nestingLimit))

section Verdict

variable {α β : Type} {finish : Nat} {language language' : List Lexeme → Prop}
variable {read : List Token → Parsed.View α} {tokens : List Token}

/-- A reading that takes some tokens and goes on with another one. -/
theorem Verdict.after {inner : List Token → Parsed.View α} {rest : List Token}
    (h : Verdict finish language' inner rest) (front : List Token)
    (hread : ∀ rest', peek rest' = peek rest → read (front ++ rest') = inner rest')
    (hlanguage : ∀ ls, language' ls → language (front.map Token.lexeme ++ ls)) :
    Verdict finish language read (front ++ rest) := by
  cases h with
  | ok done rest value htokens hdone hinner =>
    subst htokens
    refine .ok (front ++ done) rest value (List.append_assoc _ _ _).symm ?_ fun rest' hrest' => ?_
    · rw [List.map_append]
      exact hlanguage _ hdone
    · rw [List.append_assoc, hread _ (peek_append hrest' done), hinner rest' hrest']
  | malformed done rest htokens hbegins hinner =>
    subst htokens
    obtain ⟨more, hmore⟩ := hbegins
    refine .malformed (front ++ done) rest (List.append_assoc _ _ _).symm ⟨more, ?_⟩
      fun rest' hrest' => ?_
    · rw [List.map_append, List.append_assoc]
      exact hlanguage _ hmore
    · rw [List.append_assoc, hread _ (peek_append hrest' done), hinner rest' hrest']
  | tooNested hinner => exact .tooNested ((hread rest rfl).trans hinner)

/-- One reading after another. -/
theorem Verdict.bind {first : List Token → Parsed.View β} {next : β × List Token → Parsed.View α}
    {language₁ : List Lexeme → Prop} (h : Verdict finish language₁ first tokens)
    (language₂ : List Lexeme → Prop)
    (hnext : ∀ value rest, first tokens = .ok (value, rest) →
      Verdict finish language₂ (fun rest => next (value, rest)) rest)
    (hnonempty : ∃ ls, language₂ ls)
    (hlanguage : ∀ ls rs, language₁ ls → language₂ rs → language (ls ++ rs)) :
    Verdict finish language (fun tokens => (first tokens).bind next) tokens := by
  cases h with
  | ok done rest value htokens hdone hfirst =>
    subst htokens
    refine (hnext value rest (hfirst rest rfl)).after done (fun rest' hrest' => ?_)
      fun ls hls => hlanguage _ ls hdone hls
    rw [hfirst rest' hrest']
    rfl
  | malformed done rest htokens hbegins hfirst =>
    obtain ⟨more, hmore⟩ := hbegins
    obtain ⟨ls, hls⟩ := hnonempty
    refine .malformed done rest htokens ⟨more ++ ls, ?_⟩ fun rest' hrest' => ?_
    · rw [← List.append_assoc]
      exact hlanguage _ ls hmore hls
    · rw [hfirst rest' hrest']
      rfl
  | tooNested hfirst =>
    refine .tooNested ?_
    rw [hfirst]
    rfl

/-- A reading that takes no token and ends well. -/
theorem verdict_stop (value : α) (hlanguage : language [])
    (hread : ∀ tokens', peek tokens' = peek tokens → read tokens' = .ok (value, tokens')) :
    Verdict finish language read tokens :=
  .ok [] tokens value rfl hlanguage hread

/-- A reading that takes no token and refuses the next one. -/
theorem verdict_refuse (hlanguage : ∃ ls, language ls)
    (hread : ∀ tokens', peek tokens' = peek tokens →
      read tokens' = .error (.malformed (positionOf finish tokens'))) :
    Verdict finish language read tokens :=
  .malformed [] tokens rfl hlanguage hread

/-- A tree that is built of what was read may be too high. -/
theorem verdict_limited {t : Expr} {height : Nat} {next : Measured → List Token → Parsed.View α}
    (h : ∀ limited, Verdict finish language (next limited) tokens) :
    Verdict finish language
      (fun tokens => (Measured.limited t height).bind fun limited => next limited tokens)
      tokens := by
  unfold Measured.limited
  split
  · exact .tooNested rfl
  · exact h _

end Verdict

/-- The production comes to a verdict on all tokens. -/
def Settles (finish : Nat) (s : Symbol) (k : Nat) (p : Production) : Prop :=
  ∀ tokens, Verdict finish (IsPhrase s k) p.run tokens

section Settles

variable {finish k : Nat} {s s' : Symbol} {operator? : Lexeme → Option Operator}

theorem runChain_of_none {operand : Production} (value : Measured) {tokens : List Token}
    (h : (peek tokens).bind operator? = none) :
    Production.runChain operator? operand value tokens = .ok (value, tokens) := by
  rw [Production.runChain_eq]
  cases tokens with
  | nil => rfl
  | cons token following =>
    have hnone : operator? token.lexeme = none := h
    simp only [hnone]

/-- The verdict on a chain, by induction on the number of tokens, of which every round takes an
operator and an operand. -/
theorem verdict_runChain {operand : Production} (hoperand : Settles finish s' k operand)
    (hjoin : ∀ {x op ls rs}, operator? x = some op → IsPhrase s k ls → IsPhrase s' k rs →
      IsPhrase s k (ls ++ x :: rs)) (value : Measured) (tokens : List Token) :
    Verdict finish (Completes (IsPhrase s k) (IsPhrase s k))
      (Production.runChain operator? operand value) tokens := by
  have hstop : Completes (IsPhrase s k) (IsPhrase s k) [] := fun ls hls => by simpa using hls
  induction hn : tokens.length using Nat.strongRecOn generalizing value tokens with
  | ind n ih =>
    cases hop : (peek tokens).bind operator? with
    | none =>
      refine verdict_stop value hstop fun tokens' htokens' => ?_
      exact runChain_of_none value (by rw [htokens', hop])
    | some op =>
      obtain ⟨token, following, rfl⟩ : ∃ token following, tokens = token :: following := by
        cases tokens with
        | nil => cases hop
        | cons token following => exact ⟨token, following, rfl⟩
      have hop : operator? token.lexeme = some op := hop
      have hafter : Verdict finish
          (fun rs => ∃ right others, IsPhrase s' k right ∧
            Completes (IsPhrase s k) (IsPhrase s k) others ∧ rs = right ++ others)
          (fun following => (operand.run following).bind fun right =>
            (value.join op right.1).bind fun joined =>
              Production.runChain operator? operand joined right.2) following := by
        refine (hoperand following).bind (Completes (IsPhrase s k) (IsPhrase s k))
          (fun right rest hright => ?_) ⟨[], hstop⟩ fun ls rs hls hrs => ⟨ls, rs, hls, hrs, rfl⟩
        have hshorter := Production.length_lt_of_run hright
        have hrest : rest.length < n := by
          simp only [List.length_cons] at hn hshorter
          omega
        simp only [Measured.join]
        exact verdict_limited fun joined => ih rest.length hrest joined rest rfl
      refine hafter.after [token] (fun rest' _ => ?_) ?_
      · rw [List.singleton_append, Production.runChain_eq]
        simp only [hop]
      · rintro _ ⟨right, others, hright, hothers, rfl⟩ ls hls
        have hjoined := hothers _ (hjoin hop hls hright)
        simpa using hjoined

theorem Settles.chain {operand : Production} (hoperand : Settles finish s' k operand)
    (hfirst : ∀ {ps t}, Derives s' k ps t → Derives s k ps t)
    (hjoin : ∀ {x op ls rs}, operator? x = some op → IsPhrase s k ls → IsPhrase s' k rs →
      IsPhrase s k (ls ++ x :: rs)) :
    Settles finish s k (Production.chain operator? operand) := by
  intro tokens
  have hrun : (Production.chain operator? operand).run = fun tokens =>
      (operand.run tokens).bind fun first =>
        Production.runChain operator? operand first.1 first.2 :=
    funext (Production.run_chain operator? operand)
  rw [hrun]
  refine (hoperand tokens).bind _ (fun first rest _ => verdict_runChain hoperand hjoin first rest)
    ⟨[], fun ls hls => by simpa using hls⟩ fun ls rs hls hrs => hrs ls (hls.mono hfirst)

theorem completes_of_isArguments {following : List Lexeme}
    (h : IsPhrase .expression (k + 1) following) {rest : List Lexeme}
    (hrest : Completes (IsArguments k) (IsCallRest k) rest) :
    Completes (IsArguments k) (IsCallRest k) (.comma :: following ++ rest) := by
  intro ls hls
  simpa using hrest _ (hls.concat h)

theorem runArguments_of_ne {expression : Production} {values : List Measured}
    {tokens : List Token} (hclosing : peek tokens ≠ some .rightParen)
    (hcomma : peek tokens ≠ some .comma) :
    Production.runArguments finish expression values tokens =
      .error (.malformed (positionOf finish tokens)) := by
  rw [Production.runArguments_eq]
  rcases tokens with _ | ⟨⟨lexeme, _⟩, rest⟩
  · rfl
  cases lexeme with
  | rightParen => exact absurd rfl hclosing
  | comma => exact absurd rfl hcomma
  | _ => rfl

theorem runArguments_comma_of_ne {expression : Production} {values : List Measured}
    {position : Nat} {following : List Token} (h : peek following ≠ some .rightParen) :
    Production.runArguments finish expression values (⟨.comma, position⟩ :: following) =
      (expression.run following).bind fun next =>
        Production.runArguments finish expression (next.1 :: values) next.2 := by
  rw [Production.runArguments_eq]
  rcases following with _ | ⟨⟨lexeme, _⟩, rest⟩
  · rfl
  cases lexeme with
  | rightParen => exact absurd rfl h
  | _ => rfl

theorem exists_of_peek_eq {tokens : List Token} {lexeme : Lexeme} (h : peek tokens = some lexeme) :
    ∃ position rest, tokens = ⟨lexeme, position⟩ :: rest := by
  rcases tokens with _ | ⟨⟨_, position⟩, rest⟩
  · cases h
  · cases h
    exact ⟨position, rest, rfl⟩

/-- The verdict on arguments, by induction on the number of tokens, of which every round takes a
comma and an argument. -/
theorem verdict_runArguments {expression : Production}
    (hexpression : Settles finish .expression (k + 1) expression) (values : List Measured)
    (tokens : List Token) :
    Verdict finish (Completes (IsArguments k) (IsCallRest k))
      (Production.runArguments finish expression values) tokens := by
  have hclose : Completes (IsArguments k) (IsCallRest k) [.rightParen] := fun _ h => h.close
  have hcomma : Completes (IsArguments k) (IsCallRest k) [.comma, .rightParen] :=
    fun _ h => h.close_comma
  induction hn : tokens.length using Nat.strongRecOn generalizing values tokens with
  | ind n ih =>
    by_cases hclosing : peek tokens = some .rightParen
    · obtain ⟨position, rest, rfl⟩ := exists_of_peek_eq hclosing
      refine .ok [⟨.rightParen, position⟩] rest values.reverse rfl hclose fun rest' _ => ?_
      rw [List.singleton_append, Production.runArguments_eq]
    by_cases hpeek : peek tokens = some .comma
    · obtain ⟨position, following, rfl⟩ := exists_of_peek_eq hpeek
      by_cases hlast : peek following = some .rightParen
      · obtain ⟨position', rest, rfl⟩ := exists_of_peek_eq hlast
        refine .ok [⟨.comma, position⟩, ⟨.rightParen, position'⟩] rest values.reverse rfl hcomma
          fun rest' _ => ?_
        rw [List.cons_append, List.singleton_append, Production.runArguments_eq]
      have hnext : Verdict finish
          (fun rs => Completes (IsArguments k) (IsCallRest k) (.comma :: rs))
          (fun following => (expression.run following).bind fun next =>
            Production.runArguments finish expression (next.1 :: values) next.2) following := by
        refine (hexpression following).bind _ (fun next rest hread => ?_) ⟨[.rightParen], hclose⟩
          fun ls rs hls hrs => completes_of_isArguments hls hrs
        have hshorter := Production.length_lt_of_run hread
        refine ih rest.length ?_ (next :: values) rest rfl
        simp only [List.length_cons] at hn hshorter
        omega
      refine hnext.after [⟨.comma, position⟩] (fun rest' hrest' => ?_) fun _ hrs => hrs
      exact runArguments_comma_of_ne (hrest' ▸ hlast)
    · refine verdict_refuse ⟨_, hclose⟩ fun tokens' htokens' => ?_
      exact runArguments_of_ne (htokens' ▸ hclosing) (htokens' ▸ hpeek)

theorem verdict_arguments {expression : Production}
    (hexpression : Settles finish .expression (k + 1) expression) (tokens : List Token) :
    Verdict finish (IsCallRest k)
      (fun tokens => Parsed.view (Production.arguments finish expression tokens)) tokens := by
  by_cases hclosing : peek tokens = some .rightParen
  · obtain ⟨position, rest, rfl⟩ := exists_of_peek_eq hclosing
    refine .ok [⟨.rightParen, position⟩] rest [] rfl (isCallRest_nil k) fun rest' _ => ?_
    rw [List.singleton_append, Production.view_arguments]
  · have hfirst : Verdict finish (IsCallRest k)
        (fun tokens => (expression.run tokens).bind fun first =>
          Production.runArguments finish expression [first.1] first.2) tokens :=
      (hexpression tokens).bind _
        (fun first rest _ => verdict_runArguments hexpression [first] rest)
        ⟨[.rightParen], fun _ h => h.close⟩ fun ls rs hls hrs => hrs ls hls.isArguments
    refine hfirst.after [] (fun tokens' htokens' => ?_) fun _ h => h
    rw [List.nil_append, Production.view_arguments]
    rcases tokens' with _ | ⟨⟨lexeme, _⟩, rest⟩
    · rfl
    cases lexeme with
    | rightParen => exact absurd htokens'.symm hclosing
    | _ => rfl

theorem Settles.atom {expression : Production}
    (hexpression : Settles finish .expression (k + 1) expression) :
    Settles finish .atom k (Production.atom finish expression) := by
  intro tokens
  rcases tokens with _ | ⟨⟨lexeme, position⟩, rest⟩
  · refine verdict_refuse (exists_isPhrase .atom k) fun tokens' htokens' => ?_
    obtain rfl : tokens' = [] := by simpa [peek] using htokens'
    rw [Production.run_atom]
  cases lexeme with
  | number value =>
    refine .ok [⟨.number value, position⟩] rest ⟨.number value, 1⟩ rfl
      ⟨_, _, .number value, rfl⟩ fun rest' _ => ?_
    rw [List.singleton_append, Production.run_atom]
  | name text =>
    by_cases hopen : peek rest = some .leftParen
    · obtain ⟨position', following, rfl⟩ := exists_of_peek_eq hopen
      have hcall : Verdict finish (IsCallRest k)
          (fun tokens => (Parsed.view (Production.arguments finish expression tokens)).bind
            fun read => (Measured.limited (.call text (read.1.map Measured.expr))
              (Production.callHeight read.1)).bind fun call => .ok (call, read.2)) following := by
        refine (verdict_arguments hexpression following).bind (· = [])
          (fun values after _ => ?_) ⟨[], rfl⟩ ?_
        · dsimp only
          exact verdict_limited fun call => verdict_stop call rfl fun _ _ => rfl
        · rintro ls _ hls rfl
          rwa [List.append_nil]
      refine hcall.after [⟨.name text, position⟩, ⟨.leftParen, position'⟩]
        (fun rest' _ => ?_) fun ls hls => hls text
      rw [List.cons_append, List.singleton_append, Production.run_atom]
    · refine .ok [⟨.name text, position⟩] rest ⟨.name text, 1⟩ rfl ⟨_, _, .name text, rfl⟩
        fun rest' hrest' => ?_
      rw [List.singleton_append, Production.run_atom]
      rcases rest' with _ | ⟨⟨lexeme, _⟩, following⟩
      · rfl
      cases lexeme with
      | leftParen => exact absurd hrest'.symm hopen
      | _ => rfl
  | leftParen =>
    have hinner : Verdict finish
        (fun ls => IsPhrase .atom k (.leftParen :: ls))
        (fun tokens => (Production.atom finish expression).run (⟨.leftParen, position⟩ :: tokens))
        rest := by
      simp only [Production.run_atom]
      refine (hexpression rest).bind (· = [.rightParen]) (fun inner after _ => ?_)
        ⟨_, rfl⟩ ?_
      · by_cases hclosing : peek after = some .rightParen
        · obtain ⟨position', others, rfl⟩ := exists_of_peek_eq hclosing
          exact .ok [⟨.rightParen, position'⟩] others inner rfl rfl fun _ _ => rfl
        · refine verdict_refuse ⟨_, rfl⟩ fun tokens' htokens' => ?_
          rcases tokens' with _ | ⟨⟨lexeme, _⟩, others⟩
          · rfl
          cases lexeme with
          | rightParen => exact absurd htokens'.symm hclosing
          | _ => rfl
      · rintro ls _ hls rfl
        exact hls.parenthesized
    exact hinner.after [⟨.leftParen, position⟩] (fun _ _ => rfl) fun _ hls => hls
  | _ =>
    refine verdict_refuse (exists_isPhrase .atom k) fun tokens' htokens' => ?_
    obtain ⟨_, _, rfl⟩ := exists_of_peek_eq htokens'
    rw [Production.run_atom]

theorem Settles.signed {operand atom : Production}
    (hoperand : Settles finish .signed (k + 1) operand) (hatom : Settles finish .atom k atom) :
    Settles finish .signed k (Production.signed operand atom) := by
  have hsign : ∀ (sign : Sign) (position : Nat) (rest : List Token),
      Verdict finish (IsPhrase .signed k) (Production.signed operand atom).run
        (⟨sign.lexeme, position⟩ :: rest) := by
    intro sign position rest
    have hafter : Verdict finish (IsPhrase .signed (k + 1)) (Production.runSign sign operand)
        rest := by
      refine (hoperand rest).bind (· = []) (fun read after _ => ?_) ⟨[], rfl⟩ ?_
      · dsimp only
        exact verdict_limited fun signed => verdict_stop signed rfl fun _ _ => rfl
      · rintro ls _ hls rfl
        rwa [List.append_nil]
    refine hafter.after [⟨sign.lexeme, position⟩] (fun rest' _ => ?_)
      fun ls hls => hls.sign sign
    rw [List.singleton_append, Production.run_signed]
    cases sign <;> rfl
  intro tokens
  by_cases hplus : peek tokens = some .plus
  · obtain ⟨position, rest, rfl⟩ := exists_of_peek_eq hplus
    exact hsign .plus position rest
  by_cases hminus : peek tokens = some .minus
  · obtain ⟨position, rest, rfl⟩ := exists_of_peek_eq hminus
    exact hsign .minus position rest
  refine (hatom tokens).after [] (fun tokens' htokens' => ?_)
    fun ls hls => hls.mono .ofAtom
  rw [List.nil_append, Production.run_signed]
  rcases tokens' with _ | ⟨⟨lexeme, _⟩, rest⟩
  · rfl
  cases lexeme with
  | plus => exact absurd htokens'.symm hplus
  | minus => exact absurd htokens'.symm hminus
  | _ => rfl

theorem Settles.power {exponent signed : Production}
    (hexponent : Settles finish .power (k + 1) exponent)
    (hsigned : Settles finish .signed k signed) :
    Settles finish .power k (Production.power exponent signed) := by
  have hstop : Completes (IsPhrase .signed k) (IsPhrase .power k) [] := fun ls hls => by
    simpa using hls.mono .ofSigned
  have hexponents : ∀ (base : Measured) (rest : List Token),
      Verdict finish (Completes (IsPhrase .signed k) (IsPhrase .power k))
        (fun rest => Production.runExponent exponent (base, rest)) rest := by
    intro base rest
    by_cases hpeek : peek rest = some .doubleStar
    · obtain ⟨position, following, rfl⟩ := exists_of_peek_eq hpeek
      have hright : Verdict finish (IsPhrase .power (k + 1))
          (fun following => (exponent.run following).bind fun right =>
            (base.join .pow right.1).bind fun joined => .ok (joined, right.2)) following := by
        refine (hexponent following).bind (· = []) (fun right after _ => ?_)
          ⟨[], rfl⟩ ?_
        · simp only [Measured.join]
          exact verdict_limited fun joined => verdict_stop joined rfl fun _ _ => rfl
        · rintro ls _ hls rfl
          rwa [List.append_nil]
      exact hright.after [⟨.doubleStar, position⟩] (fun rest' _ => rfl)
        fun rs hrs ls hls => hls.join hrs .exponent
    · refine verdict_stop base hstop fun tokens' htokens' => ?_
      rcases tokens' with _ | ⟨⟨lexeme, _⟩, others⟩
      · rfl
      cases lexeme with
      | doubleStar => exact absurd htokens'.symm hpeek
      | _ => rfl
  have hrun : (Production.power exponent signed).run = fun tokens =>
      (signed.run tokens).bind (Production.runExponent exponent) :=
    funext (Production.run_power exponent signed)
  intro tokens
  rw [hrun]
  exact (hsigned tokens).bind _ (fun base rest _ => hexponents base rest) ⟨[], hstop⟩
    fun ls rs hls hrs => hrs ls hls

end Settles

theorem settles_withRoom (finish room k : Nat) :
    Settles finish .expression k (Level.withRoom finish room).expression ∧
      Settles finish .power k (Level.withRoom finish room).exponent ∧
      Settles finish .signed k (Level.withRoom finish room).operand := by
  induction room generalizing k with
  | zero => exact ⟨fun _ => .tooNested rfl, fun _ => .tooNested rfl, fun _ => .tooNested rfl⟩
  | succ room ih =>
    obtain ⟨hexpression, hexponent, hoperand⟩ := ih (k + 1)
    have hsigned := Settles.signed hoperand hexpression.atom
    have hpower := Settles.power hexponent hsigned
    have hterm : Settles finish .term k (Production.chain Operator.multiplicative?
        (Level.withRoom finish (room + 1)).exponent) := by
      refine hpower.chain .ofPower fun {x op ls rs} hop hl hr => ?_
      cases x with
      | star => cases hop; exact hl.join hr (.multiplicative .mul (.inl rfl))
      | slash => cases hop; exact hl.join hr (.multiplicative .div (.inr rfl))
      | _ => cases hop
    refine ⟨hterm.chain .ofTerm fun {x op ls rs} hop hl hr => ?_, hpower, hsigned⟩
    cases x with
    | plus => cases hop; exact hl.join hr (.additive .add (.inl rfl))
    | minus => cases hop; exact hl.join hr (.additive .sub (.inr rfl))
    | _ => cases hop

end Grammar

end Reckoner
