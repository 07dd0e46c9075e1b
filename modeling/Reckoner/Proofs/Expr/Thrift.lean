import Reckoner.Proofs.Expr.Budget
import Reckoner.Proofs.Expr.Heights

/-!
# Levels and heights cost tokens

The first level is free. Every other level is opened behind a token that was read for it alone: a
parenthesis, the one of a call included, a sign or an exponent's mark. So wherever a procedure is
called, at most one level more is open than tokens were read, whatever was opened and closed before.
A tree is no higher than the tokens it was read from are many, because each of its nodes has a token
of its own. Both are carried by one invariant through the procedures: the cursor only moves on, the
counter of levels comes back to what it was, and the height is paid for by the distance that the
cursor moved.

To speak of every call of a run, the procedures are put behind a watch that gives an alarm instead
of a call that is not covered. The run is the same with the watch and without it, so no alarm is
given.
-/
namespace Reckoner

/-- The height that was counted is that of the tree, and at most `n`. -/
def Measured.Within (n : Nat) (m : Measured) : Prop := m.height = m.expr.height ∧ m.height ≤ n

namespace Descent

/-- At most one level more is open than tokens were read, of `total` tokens in all. -/
def Covered (total : Nat) (c : Cursor) : Prop := c.level + c.tokens.length ≤ total + 1

instance (total : Nat) (c : Cursor) : Decidable (Covered total c) :=
  inferInstanceAs (Decidable (_ ≤ _))

/-- Runs a procedure where the levels that are open are covered, and gives the alarm elsewhere. -/
def watch {α : Type} (alarm : Stop) (total : Nat) (x : Procedure α) : Procedure α := do
  if Covered total (← get) then x else throw alarm

namespace Calls

/-- The procedures, each of them behind the watch. -/
def behindWatch (alarm : Stop) (total : Nat) (calls : Calls) : Calls where
  expression := watch alarm total calls.expression
  term := watch alarm total calls.term
  power := watch alarm total calls.power
  signed := watch alarm total calls.signed
  atom := watch alarm total calls.atom
  arguments := watch alarm total calls.arguments

/-- The procedures where this many may be active at the same time and every call is watched. A level
is opened right before a call, so that the watch sees each level that was opened. -/
def watched (alarm : Stop) (finish total : Nat) : Nat → Calls
  | 0 => none
  | budget + 1 => (calling finish (watched alarm finish total budget)).behindWatch alarm total

end Calls

/-- The tree of all tokens, of which there are `total`, read with every call watched. -/
def parseWatched (alarm : Stop) (finish total budget : Nat) : Procedure Expr := do
  let whole ← (Calls.watched alarm finish total budget).expression
  if (← get).tokens.isEmpty then return whole.expr else malformed finish

section Thrift

variable {α β : Type} {total spare : Nat}

/-- A run that ends well, or with covered levels. It may end at the limit only if there are as many
tokens as levels up to the limit. -/
def Ends (total : Nat) (post : α → Cursor → Prop) : EStateM.Result Stop Cursor α → Prop
  | .ok value c => post value c
  | .error stop c => Covered total c ∧
    ∀ limit, stop = .refused (.tooNested limit) → nestingLimit ≤ total

/-- The watch changes nothing, and the run ends as it should. -/
structure Runs (total : Nat) (post : α → Cursor → Prop)
    (watched plain : EStateM.Result Stop Cursor α) : Prop where
  same : watched = plain
  ends : Ends total post plain

/-- The counter is what it was, and the tokens that are gone pay for what was read. -/
structure Pays (low : Nat → α → Prop) (c : Cursor) (value : α) (c' : Cursor) : Prop where
  level : c'.level = c.level
  length : c'.tokens.length ≤ c.tokens.length
  low : low (c.tokens.length - c'.tokens.length) value

/-- Where `spare` more levels would still be covered, the procedure pays for what it reads. -/
def Thrifty (total spare : Nat) (low : Nat → α → Prop) (watched plain : Procedure α) : Prop :=
  ∀ c, c.level + c.tokens.length + spare ≤ total + 1 →
    Runs total (Pays low c) (watched.run c) (plain.run c)

theorem Runs.bind {x y : Procedure α} {f g : α → Procedure β} {c : Cursor}
    {post : α → Cursor → Prop} {post' : β → Cursor → Prop}
    (hx : Runs total post (x.run c) (y.run c))
    (hf : ∀ value c', post value c' → Runs total post' ((f value).run c') ((g value).run c')) :
    Runs total post' ((x >>= f).run c) ((y >>= g).run c) := by
  obtain ⟨hsame, hends⟩ := hx
  rw [EStateM.run_bind, EStateM.run_bind, hsame]
  cases hy : y.run c with
  | ok value c' =>
    rw [hy] at hends
    exact hf value c' hends
  | error stop c' =>
    rw [hy] at hends
    exact ⟨rfl, hends⟩

theorem Runs.imp {post post' : α → Cursor → Prop} {r r' : EStateM.Result Stop Cursor α}
    (h : Runs total post r r') (hpost : ∀ value c, post value c → post' value c) :
    Runs total post' r r' := by
  obtain ⟨hsame, hends⟩ := h
  cases r' with
  | ok value c => exact ⟨hsame, hpost value c hends⟩
  | error stop c => exact ⟨hsame, hends⟩

theorem runs_pure {post : α → Cursor → Prop} {value : α} {c : Cursor} (h : post value c) :
    Runs total post ((pure value : Procedure α).run c) ((pure value : Procedure α).run c) :=
  ⟨rfl, h⟩

theorem runs_malformed {post : α → Cursor → Prop} {c : Cursor} (finish : Nat)
    (h : Covered total c) :
    Runs total post ((malformed finish : Procedure α).run c)
      ((malformed finish : Procedure α).run c) :=
  ⟨rfl, h, nofun⟩

/-- A tree that was just put together is within the limit, or has more tokens behind it than that.
-/
theorem runs_limited {e : Expr} {height : Nat} {c c' : Cursor} (hc : Covered total c)
    (hlevel : c'.level = c.level) (hheight : height = e.height)
    (hlow : height + c'.tokens.length ≤ c.tokens.length) :
    Runs total (Pays Measured.Within c) ((lift (Measured.limited e height)).run c')
      ((lift (Measured.limited e height)).run c') := by
  unfold Covered at hc
  unfold Measured.limited
  split
  · refine ⟨rfl, ?_, fun limit _ => ?_⟩
    · show c'.level + c'.tokens.length ≤ total + 1
      omega
    · omega
  · refine ⟨rfl, hlevel, by omega, hheight, ?_⟩
    show height ≤ c.tokens.length - c'.tokens.length
    omega

theorem run_watch {alarm : Stop} {x : Procedure α} {c : Cursor} (h : Covered total c) :
    (watch alarm total x).run c = x.run c := by
  show (if Covered total c then x else throw alarm).run c = x.run c
  rw [if_pos h]

section Low

variable {low : Nat → α → Prop} {x y : Procedure α}

/-- What is paid for from a later token is paid for from an earlier one. -/
theorem Pays.of_later {c c' c'' : Cursor} {value : α} (h : Pays low c' value c'')
    (hmono : ∀ {m n value}, m ≤ n → low m value → low n value) (hlevel : c'.level = c.level)
    (hlength : c'.tokens.length ≤ c.tokens.length) : Pays low c value c'' where
  level := h.level.trans hlevel
  length := Nat.le_trans h.length hlength
  low := hmono (Nat.sub_le_sub_right hlength _) h.low

theorem thrifty_throw (stop : Stop) (hstop : ∀ limit, stop ≠ .refused (.tooNested limit)) :
    Thrifty total spare low (throw stop) (throw stop) := fun c hc =>
  ⟨rfl, by unfold Covered; omega, fun limit h => absurd h (hstop limit)⟩

/-- Where a procedure may be called, the watch lets it run. -/
theorem Thrifty.watch (h : Thrifty total spare low x y) (alarm : Stop) :
    Thrifty total spare low (watch alarm total x) y := by
  intro c hc
  have hcovered : Covered total c := by unfold Covered; omega
  rw [run_watch hcovered]
  exact h c hc

/-- One more level may be opened where one is to spare. -/
theorem Thrifty.opened (h : Thrifty total 0 low x y) :
    Thrifty total 1 low (opened x) (opened y) := by
  intro c hc
  by_cases hlimit : c.level + 1 ≤ nestingLimit
  · rw [run_opened_of_le hlimit, run_opened_of_le hlimit]
    refine (h ⟨c.tokens, c.level + 1, max c.peak (c.level + 1)⟩ (by simp only; omega)).bind
      fun value c' hvalue => ?_
    obtain ⟨tokens, level, peak⟩ := c'
    obtain rfl : level = c.level + 1 := hvalue.level
    exact ⟨rfl, rfl, hvalue.length, hvalue.low⟩
  · rw [run_opened_of_lt (Nat.not_le.mp hlimit), run_opened_of_lt (Nat.not_le.mp hlimit)]
    refine ⟨rfl, ?_, fun limit _ => by omega⟩
    show c.level + 1 + c.tokens.length ≤ total + 1
    omega

/-- The closing parenthesis is read on top of what is paid for. -/
theorem Thrifty.closing (h : Thrifty total spare low x y) (finish : Nat)
    (hmono : ∀ {m n value}, m ≤ n → low m value → low n value) :
    Thrifty total spare low (closing finish x) (closing finish y) := by
  intro c hc
  refine (h c hc).bind fun value c' hvalue => ?_
  obtain ⟨tokens, level, peak⟩ := c'
  obtain ⟨hlevel, hlength, hlow⟩ := hvalue
  have hcovered : Covered total ⟨tokens, level, peak⟩ := by
    simp only [Covered] at hlevel hlength ⊢
    omega
  rcases tokens with _ | ⟨⟨lexeme, position⟩, following⟩
  · exact runs_malformed finish hcovered
  cases lexeme with
  | rightParen =>
    have hfurther : c.tokens.length - (following.length + 1) ≤
        c.tokens.length - following.length := Nat.sub_le_sub_left (Nat.le_succ _) _
    exact ⟨rfl, hlevel, Nat.le_of_succ_le hlength, hmono hfurther hlow⟩
  | _ => exact ⟨rfl, hcovered, nofun⟩

end Low

/-- The trees of arguments, each of them within the same bound. -/
def AllWithin (n : Nat) (ms : List Measured) : Prop := ∀ m ∈ ms, m.Within n

theorem within_mono {m n : Nat} {value : Measured} (hmn : m ≤ n) (h : value.Within m) :
    value.Within n := ⟨h.1, Nat.le_trans h.2 hmn⟩

theorem allWithin_mono {m n : Nat} {values : List Measured} (hmn : m ≤ n) (h : AllWithin m values) :
    AllWithin n values := fun value hvalue => within_mono hmn (h value hvalue)

/-- A call is one level higher than its highest argument. -/
theorem callHeight_of_allWithin {n : Nat} {values : List Measured} (h : AllWithin n values)
    (function : String) :
    Production.callHeight values = (Expr.call function (values.map Measured.expr)).height ∧
      Production.callHeight values ≤ n + 1 := by
  have hheight := Production.callHeight_eq (fun value hvalue => (h value hvalue).1) function
  refine ⟨hheight, ?_⟩
  rw [hheight, Expr.height, Nat.add_le_add_iff_right, Expr.greatestHeight_le_iff,
    List.forall_mem_map]
  intro value hvalue
  rw [← (h value hvalue).1]
  exact (h value hvalue).2

variable {x y : Procedure Measured}

/-- A round of a chain pays for the node that it adds with its operator. -/
theorem Thrifty.chainRounds (h : Thrifty total spare Measured.Within x y)
    (operator? : Lexeme → Option Operator) {c : Cursor}
    (hc : c.level + c.tokens.length + spare ≤ total + 1) (rounds : Nat) {value : Measured}
    {c' : Cursor} (hvalue : Pays Measured.Within c value c') :
    Runs total (Pays Measured.Within c) ((chainRounds operator? x rounds value).run c')
      ((chainRounds operator? y rounds value).run c') := by
  induction rounds generalizing value c' with
  | zero => exact runs_pure hvalue
  | succ rounds ih =>
    obtain ⟨tokens, level, peak⟩ := c'
    rcases tokens with _ | ⟨token, following⟩
    · exact runs_pure hvalue
    simp only [Descent.chainRounds, run_current_bind, List.head?_cons, Option.map_some,
      Option.bind_some]
    cases operator? token.lexeme with
    | none => exact runs_pure hvalue
    | some operator =>
      obtain ⟨hlevel, hlength, hheight, hlow⟩ := hvalue
      simp only [List.length_cons] at hlevel hlength hlow
      refine (h ⟨following, level, peak⟩ (by simp only; omega)).bind fun right after hright => ?_
      obtain ⟨hlevel', hlength', hheight', hlow'⟩ := hright
      simp only at hlevel' hlength' hlow'
      refine (runs_limited (by unfold Covered; omega) (by omega) ?_ (by omega)).bind
        fun joined _ hjoined => ih hjoined
      rw [Expr.height, hheight, hheight']

theorem Thrifty.chain (h : Thrifty total spare Measured.Within x y)
    (operator? : Lexeme → Option Operator) :
    Thrifty total spare Measured.Within (chain operator? x) (chain operator? y) := fun c hc =>
  (h c hc).bind fun _ c' hfirst => h.chainRounds operator? hc c'.tokens.length hfirst

theorem Pays.reverse {c c' : Cursor} {values : List Measured} (h : Pays AllWithin c values c') :
    Pays AllWithin c values.reverse c' :=
  ⟨h.level, h.length, fun m hm => h.low m (List.mem_reverse.mp hm)⟩

theorem Pays.cons {c c' c'' : Cursor} {values : List Measured} {next : Measured}
    (hvalues : Pays AllWithin c values c') (hnext : Pays Measured.Within c next c'')
    (hlength : c''.tokens.length ≤ c'.tokens.length) : Pays AllWithin c (next :: values) c'' where
  level := hnext.level
  length := hnext.length
  low m hm := by
    rcases List.mem_cons.mp hm with rfl | hm
    · exact hnext.low
    · exact within_mono (Nat.sub_le_sub_left hlength _) (hvalues.low m hm)

theorem Thrifty.argumentRounds (h : Thrifty total spare Measured.Within x y) {c : Cursor}
    (hc : c.level + c.tokens.length + spare ≤ total + 1) (rounds : Nat) {values : List Measured}
    {c' : Cursor} (hvalues : Pays AllWithin c values c') :
    Runs total (Pays AllWithin c) ((argumentRounds x rounds values).run c')
      ((argumentRounds y rounds values).run c') := by
  induction rounds generalizing values c' with
  | zero => exact runs_pure hvalues.reverse
  | succ rounds ih =>
    obtain ⟨tokens, level, peak⟩ := c'
    rcases tokens with _ | ⟨⟨lexeme, position⟩, following⟩
    · exact runs_pure hvalues.reverse
    cases lexeme with
    | comma =>
      have hlevel : level = c.level := hvalues.level
      have hlength : following.length + 1 ≤ c.tokens.length := hvalues.length
      have hnext : Runs total (Pays AllWithin c)
          ((do Descent.argumentRounds x rounds ((← x) :: values)).run ⟨following, level, peak⟩)
          ((do Descent.argumentRounds y rounds ((← y) :: values)).run
            ⟨following, level, peak⟩) := by
        refine (h ⟨following, level, peak⟩ (by simp only; omega)).bind fun next after hnext => ?_
        have hpays := hnext.of_later within_mono hlevel (Nat.le_of_succ_le hlength)
        exact ih (hvalues.cons hpays (Nat.le_succ_of_le hnext.length))
      rcases following with _ | ⟨⟨lexeme, position'⟩, after⟩
      · exact hnext
      cases lexeme with
      | rightParen =>
        exact runs_pure (Pays.reverse ⟨hlevel, Nat.le_of_succ_le hlength,
          allWithin_mono (Nat.sub_le_sub_left (Nat.le_succ _) _) hvalues.low⟩)
      | _ => exact hnext
    | _ => exact runs_pure hvalues.reverse

theorem Thrifty.arguments (h : Thrifty total spare Measured.Within x y) :
    Thrifty total spare AllWithin (arguments x) (arguments y) := by
  intro c hc
  have hsome : Runs total (Pays AllWithin c)
      ((do
        let first ← x
        Descent.argumentRounds x (← get).tokens.length [first]).run c)
      ((do
        let first ← y
        Descent.argumentRounds y (← get).tokens.length [first]).run c) := by
    refine (h c hc).bind fun first c' hfirst => h.argumentRounds hc c'.tokens.length ?_
    exact ⟨hfirst.level, hfirst.length, fun m hm => List.mem_singleton.mp hm ▸ hfirst.low⟩
  obtain ⟨tokens, level, peak⟩ := c
  rcases tokens with _ | ⟨⟨lexeme, position⟩, rest⟩
  · exact hsome
  cases lexeme with
  | rightParen => exact runs_pure ⟨rfl, Nat.le_refl _, nofun⟩
  | _ => exact hsome

/-- An atom has a token of its own, and a call has two before a level is opened for an argument. -/
theorem Thrifty.atom (hexpression : Thrifty total 1 Measured.Within x y) (finish : Nat)
    {arguments arguments' : Procedure (List Measured)}
    (harguments : Thrifty total 1 AllWithin arguments arguments') :
    Thrifty total 0 Measured.Within (atom finish x arguments) (atom finish y arguments') := by
  rintro ⟨tokens, level, peak⟩ hc
  have hleaf : ∀ (e : Expr) (token : Token) (rest : List Token), e.height = 1 →
      Pays Measured.Within ⟨token :: rest, level, peak⟩ ⟨e, 1⟩ ⟨rest, level, peak⟩ := by
    intro e token rest he
    refine ⟨rfl, Nat.le_succ _, he.symm, ?_⟩
    simp only [List.length_cons]
    omega
  rcases tokens with _ | ⟨⟨lexeme, position⟩, rest⟩
  · exact runs_malformed finish hc
  simp only [List.length_cons] at hc
  cases lexeme with
  | number value => exact runs_pure (hleaf (.number value) _ rest rfl)
  | name text =>
    rcases rest with _ | ⟨⟨lexeme, position'⟩, following⟩
    · exact runs_pure (hleaf (.name text) _ [] rfl)
    cases lexeme with
    | leftParen =>
      simp only [List.length_cons] at hc
      refine ((harguments.closing finish allWithin_mono) ⟨following, level, peak⟩
        (by simp only; omega)).bind fun read after hread => ?_
      obtain ⟨hlevel, hlength, hlow⟩ := hread
      obtain ⟨hheight, hcall⟩ := callHeight_of_allWithin hlow text
      simp only at hlevel hlength hcall
      refine runs_limited hc hlevel hheight ?_
      simp only [List.length_cons]
      omega
    | _ => exact runs_pure (hleaf (.name text) _ _ rfl)
  | leftParen =>
    refine Runs.imp ((hexpression.closing finish within_mono) ⟨rest, level, peak⟩
      (by simp only; omega)) fun value after h => ?_
    exact h.of_later within_mono rfl (Nat.le_succ _)
  | _ => exact runs_malformed finish hc

theorem Thrifty.signed (hoperand : Thrifty total 0 Measured.Within x y)
    {atom atom' : Procedure Measured} (hatom : Thrifty total 0 Measured.Within atom atom') :
    Thrifty total 0 Measured.Within (signed x atom) (signed y atom') := by
  rintro ⟨tokens, level, peak⟩ hc
  have hsign : ∀ (sign : Sign) (token : Token) (rest : List Token),
      level + (rest.length + 1) ≤ total + 1 →
      Runs total (Pays Measured.Within ⟨token :: rest, level, peak⟩)
        ((afterSign sign x).run ⟨token :: rest, level, peak⟩)
        ((afterSign sign y).run ⟨token :: rest, level, peak⟩) := by
    intro sign token rest hrest
    refine (hoperand.opened ⟨rest, level, peak⟩ (by simp only; omega)).bind
      fun read after hread => ?_
    obtain ⟨hlevel, hlength, hheight, hlow⟩ := hread
    simp only at hlevel hlength hlow
    refine runs_limited hrest hlevel ?_ ?_
    · rw [Expr.height, hheight]
    · simp only [List.length_cons]
      omega
  rcases tokens with _ | ⟨⟨lexeme, position⟩, rest⟩
  · exact hatom _ hc
  cases lexeme with
  | plus => exact hsign .plus ⟨.plus, position⟩ rest hc
  | minus => exact hsign .minus ⟨.minus, position⟩ rest hc
  | _ => exact hatom _ hc

theorem Thrifty.power (hexponent : Thrifty total 0 Measured.Within x y)
    {signed signed' : Procedure Measured}
    (hsigned : Thrifty total 0 Measured.Within signed signed') :
    Thrifty total 0 Measured.Within (power x signed) (power y signed') := by
  intro c hc
  refine (hsigned c hc).bind fun base c' hbase => ?_
  obtain ⟨tokens, level, peak⟩ := c'
  rcases tokens with _ | ⟨⟨lexeme, position⟩, following⟩
  · exact runs_pure hbase
  cases lexeme with
  | doubleStar =>
    obtain ⟨hlevel, hlength, hheight, hlow⟩ := hbase
    simp only [List.length_cons] at hlevel hlength hlow
    refine (hexponent.opened ⟨following, level, peak⟩ (by simp only; omega)).bind
      fun right after hright => ?_
    obtain ⟨hlevel', hlength', hheight', hlow'⟩ := hright
    simp only at hlevel' hlength' hlow'
    refine runs_limited hc (by omega) ?_ (by omega)
    rw [Expr.height, hheight, hheight']
  | _ => exact runs_pure hbase

end Thrift

/-- All procedures are thrifty. An expression and arguments need a level to spare, because the
former opens one before it reads a token. -/
structure Calls.AllThrifty (total : Nat) (watched plain : Calls) : Prop where
  expression : Thrifty total 1 Measured.Within watched.expression plain.expression
  term : Thrifty total 0 Measured.Within watched.term plain.term
  power : Thrifty total 0 Measured.Within watched.power plain.power
  signed : Thrifty total 0 Measured.Within watched.signed plain.signed
  atom : Thrifty total 0 Measured.Within watched.atom plain.atom
  arguments : Thrifty total 1 AllWithin watched.arguments plain.arguments

theorem Calls.allThrifty_watched (alarm : Stop) (finish total budget : Nat) :
    AllThrifty total (watched alarm finish total budget) (within finish budget) := by
  induction budget with
  | zero => constructor <;> exact thrifty_throw .exhausted nofun
  | succ budget ih =>
    exact {
      expression := ((ih.term.chain _).opened).watch alarm
      term := (ih.power.chain _).watch alarm
      power := (ih.power.power ih.signed).watch alarm
      signed := (ih.signed.signed ih.atom).watch alarm
      atom := (ih.expression.atom finish ih.arguments).watch alarm
      arguments := ih.expression.arguments.watch alarm }

/-- A run on all tokens goes through covered levels only, and is covered where it ends. -/
theorem runs_parse (alarm : Stop) (finish budget : Nat) (tokens : List Token) :
    Runs tokens.length (fun _ => Covered tokens.length)
      ((parseWatched alarm finish tokens.length budget).run (start tokens))
      ((parse finish budget).run (start tokens)) := by
  have hwhole := (Calls.allThrifty_watched alarm finish tokens.length budget).expression
    (start tokens) (by simp [start])
  refine hwhole.bind fun whole c hc => ?_
  have hlength : c.tokens.length ≤ tokens.length := hc.length
  have hlevel : c.level = 0 := hc.level
  have hcovered : Covered tokens.length c := by unfold Covered; omega
  rcases c with ⟨_ | ⟨token, rest⟩, level, peak⟩
  · exact runs_pure hcovered
  · exact runs_malformed finish hcovered

theorem covered_last {α : Type} {total : Nat} {watched plain : EStateM.Result Stop Cursor α}
    (h : Runs total (fun _ => Covered total) watched plain) : Covered total (last plain) := by
  have hends := h.ends
  cases plain with
  | ok value c => exact hends
  | error stop c => exact hends.1

/-- A list of tokens that is refused at the limit has as many tokens as there are levels. -/
theorem nestingLimit_le_length {tokens : List Token} {finish limit : Nat}
    (h : Expr.ofTokens tokens finish = .error (.tooNested limit)) :
    nestingLimit ≤ tokens.length := by
  have hanswer := answer_parse tokens finish
  have hends := (runs_parse .exhausted finish 1201 tokens).ends
  rw [h] at hanswer
  cases hrun : (parse finish 1201).run (start tokens) with
  | ok whole c =>
    rw [hrun] at hanswer
    cases hanswer
  | error stop c =>
    rw [hrun] at hanswer hends
    exact hends.2 limit (Except.error.inj hanswer)

/-- What a production reads is paid for as what an agreeing procedure reads. -/
theorem low_of_agrees {α : Type} {level spare : Nat} {low : Nat → α → Prop} {x y : Procedure α}
    {view : List Token → Parsed.View α} {tokens rest : List Token} {value : α}
    (hagrees : Agrees level y view) (hthrifty : Thrifty (level + tokens.length) spare low x y)
    (hspare : spare ≤ 1) (hview : view tokens = .ok (value, rest)) :
    low (tokens.length - rest.length) value := by
  have hmatches := hagrees tokens 0
  have hends := (hthrifty ⟨tokens, level, 0⟩ (by simp only; omega)).ends
  rw [hview] at hmatches
  obtain ⟨peak, hrun⟩ := hmatches
  rw [hrun] at hends
  exact hends.low

end Descent

namespace Level

open Descent (AgreesAt agreesAt low_of_agrees allWithin_mono Calls.allThrifty_watched)

section Room

variable {finish opened : Nat} {tokens : List Token}

/-- The productions inside this many open levels agree with the procedures. -/
theorem agreesAt_room (finish opened : Nat) :
    AgreesAt finish (nestingLimit - opened) (nestingLimit - (nestingLimit - opened)) :=
  agreesAt finish _ _ (Nat.sub_add_cancel (Nat.sub_le _ _))

theorem within_of_productions {p : Production} (hp : p ∈ productions finish opened)
    {read : Parsed Measured tokens} (hread : p tokens = .ok read) :
    read.value.Within (tokens.length - read.rest.length) := by
  have hview : p.run tokens = .ok (read.value, read.rest) := by
    rw [Production.run, hread, Parsed.view_ok, Parsed.pair]
  have hagrees := agreesAt_room finish opened
  generalize hroom : nestingLimit - opened = room at hagrees
  have hbudget : 6 * room ≤ 6 * room := Nat.le_refl _
  have hthrifty := Calls.allThrifty_watched .exhausted finish
    (nestingLimit - room + tokens.length)
  simp only [productions, hroom, List.mem_cons, List.not_mem_nil, or_false] at hp
  rcases hp with rfl | rfl | rfl | rfl | rfl
  · exact low_of_agrees ((hagrees.term hbudget).chain Operator.additive?)
      ((hthrifty _).term.chain Operator.additive?) (Nat.zero_le 1) hview
  · exact low_of_agrees (hagrees.term hbudget) (hthrifty _).term (Nat.zero_le 1) hview
  · exact low_of_agrees (hagrees.power hbudget) (hthrifty _).power (Nat.zero_le 1) hview
  · exact low_of_agrees (hagrees.signed hbudget) (hthrifty _).signed (Nat.zero_le 1) hview
  · exact low_of_agrees (hagrees.atom hbudget) (hthrifty _).atom (Nat.zero_le 1) hview

theorem allWithin_of_arguments {read : Parsed (List Measured) tokens}
    (hread : arguments finish opened tokens = .ok read) :
    Descent.AllWithin (tokens.length - read.rest.length) read.value := by
  have hview : Parsed.view (arguments finish opened tokens) = .ok (read.value, read.rest) := by
    rw [hread, Parsed.view_ok, Parsed.pair]
  have hagrees := agreesAt_room finish opened
  have hthrifty := Calls.allThrifty_watched .exhausted finish
    (nestingLimit - (nestingLimit - opened) + tokens.length)
  exact low_of_agrees ((hagrees.expression _ (Nat.le_refl _)).closing_arguments finish)
    ((hthrifty _).expression.arguments.closing finish allWithin_mono) (Nat.le_refl 1) hview

end Room

/-- Opening parentheses are read until there is no room for another expression. -/
theorem run_parentheses (finish room position : Nat) (rest : List Token) :
    (withRoom finish room).expression.run (List.replicate room ⟨.leftParen, position⟩ ++ rest) =
      .error (.tooNested nestingLimit) := by
  induction room with
  | zero => rfl
  | succ room ih =>
    rw [List.replicate_succ, List.cons_append]
    simp only [withRoom, above, Production.run_chain, Production.run_power, Production.run_signed,
      Production.run_atom, ih]
    rfl

end Level

/-- Few tokens open few levels. Whatever the alarm and however many calls are allowed, a run on all
tokens is the same behind the watch, which lets a procedure run only where at most one level more is
open than tokens were read; where the run stops, that still holds. With 1201 calls it answers what
the parser answers. Each production that reads a tree, at every level, reads one that is no higher
than the tokens are many that are gone, and so does each argument of a call. So fewer than 200
tokens are never refused as nested too deeply. -/
theorem Expr.levels_within_tokens (tokens : List Token) (finish : Nat) :
    (∀ alarm budget,
      (Descent.parseWatched alarm finish tokens.length budget).run (Descent.start tokens) =
        (Descent.parse finish budget).run (Descent.start tokens)) ∧
    (∀ budget, let c := Descent.last ((Descent.parse finish budget).run (Descent.start tokens))
      c.level + c.tokens.length ≤ tokens.length + 1) ∧
    Descent.answer ((Descent.parse finish 1201).run (Descent.start tokens)) =
      (ofTokens tokens finish).mapError .refused ∧
    (∀ opened, ∀ p ∈ Level.productions finish opened, ∀ (tokens : List Token) read,
      p tokens = .ok read → read.value.height = read.value.expr.height ∧
        read.value.height ≤ tokens.length - read.rest.length) ∧
    (∀ opened (tokens : List Token) read, Level.arguments finish opened tokens = .ok read →
      ∀ value ∈ read.value, value.height = value.expr.height ∧
        value.height ≤ tokens.length - read.rest.length) ∧
    (tokens.length < 200 → ∀ limit, ofTokens tokens finish ≠ .error (.tooNested limit)) :=
  ⟨fun alarm budget => (Descent.runs_parse alarm finish budget tokens).same,
    fun budget => Descent.covered_last (Descent.runs_parse .exhausted finish budget tokens),
    Descent.answer_parse tokens finish,
    fun _ _ hp _ _ hread => Level.within_of_productions hp hread,
    fun _ _ _ hread => Level.allWithin_of_arguments hread,
    fun hshort _ h => Nat.not_le.mpr hshort (Descent.nestingLimit_le_length h)⟩

/-- No smaller number of tokens would do: that many opening parentheses are refused at the limit,
whatever follows. -/
theorem Expr.ofTokens_parentheses (finish position : Nat) (rest : List Token) :
    ofTokens (List.replicate 200 ⟨.leftParen, position⟩ ++ rest) finish =
      .error (.tooNested 200) := by
  rw [ofTokens_eq, show 200 = nestingLimit from rfl, Level.run_parentheses]
  rfl

end Reckoner
