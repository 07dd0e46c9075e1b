import Reckoner.Proofs.Expr.Grammar
import Reckoner.Proofs.Expr.Reading

/-!
# What is read is a phrase of the grammar

Each production is sound if those that it uses are. The levels are put together by induction on
the number of levels that may still be opened: with `k` levels open and `room` more to open,
`k + room` is the limit, so that a phrase read there has no lexeme inside more levels than that.
-/
namespace Reckoner

open Grammar

theorem Expr.greatestHeight_eq (es : List Expr) :
    greatestHeight es = (es.map height).foldr max 0 := by
  induction es with
  | nil => rfl
  | cons e es ih => simp [greatestHeight, ih]

theorem Expr.height_le_greatestHeight {e : Expr} {es : List Expr} (h : e ∈ es) :
    e.height ≤ greatestHeight es := by
  induction es with
  | nil => contradiction
  | cons d es ih =>
    rw [greatestHeight]
    rcases List.mem_cons.mp h with rfl | h
    · exact Nat.le_max_left _ _
    · exact Nat.le_trans (ih h) (Nat.le_max_right _ _)

theorem one_le_nestingLimit : 1 ≤ nestingLimit := by decide

namespace Grammar

/-- A phrase and its tree within the limits of the parser. -/
def Fits (ps : List Placed) (t : Expr) : Prop :=
  nesting ps ≤ nestingLimit ∧ t.height ≤ nestingLimit

/-- What was read from some tokens is a phrase within the limits. -/
def Reads (s : Symbol) (k : Nat) (tokens : List Token) (value : Measured) (rest : List Token) :
    Prop :=
  ∃ ps, tokens.map Token.lexeme = ps.map Placed.lexeme ++ rest.map Token.lexeme ∧
    Derives s k ps value.expr ∧ Fits ps value.expr ∧ value.height = value.expr.height

/-- A production that reads phrases of one kind only. -/
def Sound (s : Symbol) (k : Nat) (p : Production) : Prop :=
  ∀ tokens value rest, p.run tokens = .ok (value, rest) → Reads s k tokens value rest

end Grammar

namespace Production

variable {k : Nat} {s s' : Symbol} {operator? : Lexeme → Option Operator}

/-- The rest of a chain keeps what was read a phrase. -/
theorem reads_of_runChain {operand : Production} (hoperand : Sound s' k operand)
    (hjoin : ∀ {x op ls l rs r}, operator? x = some op → Derives s k ls l → Derives s' k rs r →
      Derives s k (ls ++ ⟨x, k⟩ :: rs) (.binary op l r))
    {tokens : List Token} {value value' : Measured} {rest rest' : List Token}
    (hvalue : Reads s k tokens value rest)
    (h : runChain operator? operand value rest = .ok (value', rest')) :
    Reads s k tokens value' rest' := by
  induction hn : rest.length using Nat.strongRecOn generalizing value rest with
  | ind n ih =>
    rw [runChain_eq] at h
    cases rest with
    | nil =>
      cases h
      exact hvalue
    | cons token following =>
      cases hop : operator? token.lexeme with
      | none =>
        simp only [hop] at h
        cases h
        exact hvalue
      | some op =>
        simp only [hop] at h
        obtain ⟨⟨right, after⟩, hright, h⟩ := Except.bind_eq_ok.mp h
        obtain ⟨joined, hjoined, h⟩ := Except.bind_eq_ok.mp h
        have hshorter := length_lt_of_run hright
        refine ih after.length (by simp only [List.length_cons] at hn hshorter; omega) ?_ h rfl
        obtain ⟨ls, hls, hl, hlfit, hlheight⟩ := hvalue
        obtain ⟨rs, hrs, hr, hrfit, hrheight⟩ := hoperand _ _ _ hright
        obtain ⟨hheight, rfl⟩ := Measured.limited_eq_ok.mp hjoined
        have hk := hl.level_le_nesting
        refine ⟨ls ++ ⟨token.lexeme, k⟩ :: rs, ?_, hjoin hop hl hr, ⟨?_, ?_⟩, ?_⟩
        · simp [hls, hrs]
        · have := hlfit.1
          have := hrfit.1
          simp only [nesting_append, nesting_cons]
          omega
        · simpa only [Expr.height, hlheight, hrheight] using hheight
        · simp only [Expr.height, hlheight, hrheight]

theorem sound_chain {operand : Production} (hoperand : Sound s' k operand)
    (hfirst : ∀ {ps t}, Derives s' k ps t → Derives s k ps t)
    (hjoin : ∀ {x op ls l rs r}, operator? x = some op → Derives s k ls l → Derives s' k rs r →
      Derives s k (ls ++ ⟨x, k⟩ :: rs) (.binary op l r)) :
    Sound s k (chain operator? operand) := by
  intro tokens value rest h
  rw [run_chain] at h
  obtain ⟨⟨first, after⟩, hrun, h⟩ := Except.bind_eq_ok.mp h
  obtain ⟨ps, hps, hd, hfit, hheight⟩ := hoperand _ _ _ hrun
  exact reads_of_runChain hoperand hjoin ⟨ps, hps, hfirst hd, hfit, hheight⟩ h

/-- What was read of the arguments of a call, a last comma and the closing parenthesis apart. -/
def ReadsArguments (k : Nat) (tokens : List Token) (arguments : List (List Placed × Expr))
    (values : List Measured) (rest : List Token) : Prop :=
  tokens.map Token.lexeme =
      (separated k (arguments.map Prod.fst)).map Placed.lexeme ++ rest.map Token.lexeme ∧
    (∀ a ∈ arguments, Derives .expression (k + 1) a.1 a.2 ∧ Fits a.1 a.2) ∧
    values.map Measured.expr = arguments.map Prod.snd ∧
    ∀ value ∈ values, value.height = value.expr.height

theorem ReadsArguments.concat {tokens : List Token} {arguments : List (List Placed × Expr)}
    {values : List Measured} {following : List Token} {position : Nat} {next : Measured}
    {rest : List Token}
    (h : ReadsArguments k tokens arguments values (⟨.comma, position⟩ :: following))
    (hne : arguments ≠ []) (hnext : Reads .expression (k + 1) following next rest) :
    ∃ a, ReadsArguments k tokens (arguments ++ [a]) (values ++ [next]) rest := by
  obtain ⟨hlexemes, hall, hvalues, hheights⟩ := h
  obtain ⟨ps, hps, hd, hfit, hheight⟩ := hnext
  refine ⟨(ps, next.expr), ?_, ?_, ?_, ?_⟩
  · have hmap : arguments.map Prod.fst ≠ [] := by simpa using hne
    simp [separated_concat k hmap, hlexemes, hps]
  · intro a ha
    rcases List.mem_append.mp ha with ha | ha
    · exact hall a ha
    · rw [List.mem_singleton.mp ha]
      exact ⟨hd, hfit⟩
  · simp [hvalues]
  · intro value hvalue
    rcases List.mem_append.mp hvalue with hvalue | hvalue
    · exact hheights value hvalue
    · rw [List.mem_singleton.mp hvalue]
      exact hheight

/-- What was read of the arguments of a call with the closing parenthesis, before which a last comma
may stand. -/
def ReadsCall (k : Nat) (tokens : List Token) (values : List Measured) (rest : List Token) : Prop :=
  ∃ (arguments : List (List Placed × Expr)) (last : List Placed),
    (last = [] ∨ last = [⟨.comma, k⟩] ∧ arguments ≠ []) ∧
    tokens.map Token.lexeme =
      (separated k (arguments.map Prod.fst) ++ last ++ [Placed.mk .rightParen k]).map
        Placed.lexeme ++ rest.map Token.lexeme ∧
    (∀ a ∈ arguments, Derives .expression (k + 1) a.1 a.2 ∧ Fits a.1 a.2) ∧
    values.map Measured.expr = arguments.map Prod.snd ∧
    ∀ value ∈ values, value.height = value.expr.height

theorem ReadsArguments.close {tokens closing rest : List Token}
    {arguments : List (List Placed × Expr)} {values : List Measured} {last : List Placed}
    (h : ReadsArguments k tokens arguments values closing)
    (hlast : last = [] ∨ last = [⟨.comma, k⟩] ∧ arguments ≠ [])
    (hclosing : closing.map Token.lexeme =
      (last ++ [Placed.mk .rightParen k]).map Placed.lexeme ++ rest.map Token.lexeme) :
    ReadsCall k tokens values rest := by
  refine ⟨arguments, last, hlast, ?_, h.2⟩
  rw [h.1, hclosing, ← List.append_assoc, ← List.map_append, ← List.append_assoc]

theorem readsCall_of_runArguments {finish : Nat} {expression : Production}
    (hexpression : Sound .expression (k + 1) expression) {tokens : List Token}
    {arguments : List (List Placed × Expr)} {values values' : List Measured}
    {rest rest' : List Token} (hvalues : ReadsArguments k tokens arguments values.reverse rest)
    (hne : arguments ≠ [])
    (h : runArguments finish expression values rest = .ok (values', rest')) :
    ReadsCall k tokens values' rest' := by
  induction hn : rest.length using Nat.strongRecOn generalizing arguments values rest with
  | ind n ih =>
    rw [runArguments_eq] at h
    split at h
    · cases h
      exact hvalues.close (.inl rfl) rfl
    · cases h
      exact hvalues.close (.inr ⟨rfl, hne⟩) rfl
    · next position following _ =>
      obtain ⟨⟨next, after⟩, hnext, h⟩ := Except.bind_eq_ok.mp h
      have hshorter := length_lt_of_run hnext
      obtain ⟨a, ha⟩ := hvalues.concat hne (hexpression _ _ _ hnext)
      rw [← List.reverse_cons] at ha
      refine ih after.length ?_ ha (by simp) h rfl
      simp only [List.length_cons] at hn hshorter
      omega
    · cases h

theorem readsCall_of_arguments {finish : Nat} {expression : Production}
    (hexpression : Sound .expression (k + 1) expression) {tokens : List Token}
    {values : List Measured} {rest : List Token}
    (h : Parsed.view (arguments finish expression tokens) = .ok (values, rest)) :
    ReadsCall k tokens values rest := by
  rw [view_arguments] at h
  split at h
  · cases h
    exact ⟨[], [], .inl rfl, rfl, by simp, rfl, by simp⟩
  · obtain ⟨⟨first, after⟩, hfirst, h⟩ := Except.bind_eq_ok.mp h
    obtain ⟨ps, hps, hd, hfit, hheight⟩ := hexpression _ _ _ hfirst
    have hfirst : ReadsArguments k tokens [(ps, first.expr)] [first].reverse after :=
      ⟨by simpa using hps, by simpa using ⟨hd, hfit⟩, rfl, by simpa using hheight⟩
    exact readsCall_of_runArguments hexpression hfirst (by simp) h

theorem callHeight_eq {values : List Measured}
    (h : ∀ value ∈ values, value.height = value.expr.height) (function : String) :
    callHeight values = (Expr.call function (values.map Measured.expr)).height := by
  rw [callHeight, Expr.height, Expr.greatestHeight_eq, List.map_map]
  congr 2
  exact List.map_congr_left h

/-- A call whose arguments are within the limits is within the limit on nesting. -/
theorem nesting_call_le (hk : k ≤ nestingLimit) (function : String)
    {arguments : List (List Placed × Expr)} {last : List Placed}
    (hlast : last = [] ∨ last = [⟨.comma, k⟩] ∧ arguments ≠ [])
    (h : ∀ a ∈ arguments, Fits a.1 a.2) :
    nesting (⟨.name function, k⟩ :: ⟨.leftParen, k⟩ ::
      (separated k (arguments.map Prod.fst) ++ last ++ [⟨.rightParen, k⟩])) ≤ nestingLimit := by
  have hcomma : nesting last ≤ nestingLimit := by
    rcases hlast with rfl | ⟨rfl, -⟩
    · simp
    · simpa using hk
  have hphrases : nesting (separated k (arguments.map Prod.fst)) ≤ nestingLimit := by
    refine (nesting_separated_le_iff hk _).mpr fun ps hps => ?_
    obtain ⟨a, ha, rfl⟩ := List.mem_map.mp hps
    exact (h a ha).1
  simp only [nesting_cons, nesting_append, nesting_nil]
  omega

/-- A call is read once its arguments are, if it is not too high. -/
theorem ReadsCall.reads {tokens rest : List Token} {values : List Measured} {call : Measured}
    (h : ReadsCall k tokens values rest) (hk : k ≤ nestingLimit) (function : String)
    {position position' : Nat}
    (hcall : Measured.limited (.call function (values.map Measured.expr)) (callHeight values) =
      .ok call) :
    Reads .atom k (⟨.name function, position⟩ :: ⟨.leftParen, position'⟩ :: tokens) call rest := by
  obtain ⟨hheight, rfl⟩ := Measured.limited_eq_ok.mp hcall
  obtain ⟨arguments, last, hlast, hlexemes, hall, hvalues, hheights⟩ := h
  have hd := Derives.call function arguments last hlast fun a ha => (hall a ha).1
  rw [callHeight_eq hheights function, hvalues] at hheight ⊢
  refine ⟨_, ?_, hd, ⟨?_, hheight⟩, rfl⟩
  · simp [hlexemes]
  · exact nesting_call_le hk function hlast fun a ha => (hall a ha).2

theorem sound_atom {finish : Nat} {expression : Production}
    (hexpression : Sound .expression (k + 1) expression) (hk : k ≤ nestingLimit) :
    Sound .atom k (atom finish expression) := by
  intro tokens value rest h
  rw [run_atom] at h
  split at h
  · next number _ _ =>
    cases h
    exact ⟨[⟨.number number, k⟩], rfl, .number number, ⟨by simpa using hk, one_le_nestingLimit⟩,
      rfl⟩
  · next function _ _ following =>
    obtain ⟨⟨values, after⟩, hread, h⟩ := Except.bind_eq_ok.mp h
    obtain ⟨call, hcall, h⟩ := Except.bind_eq_ok.mp h
    cases h
    exact (readsCall_of_arguments hexpression hread).reads hk function hcall
  · next text _ _ _ =>
    cases h
    exact ⟨[⟨.name text, k⟩], rfl, .name text, ⟨by simpa using hk, one_le_nestingLimit⟩, rfl⟩
  · obtain ⟨⟨inner, after⟩, hinner, h⟩ := Except.bind_eq_ok.mp h
    simp only at h
    split at h
    · cases h
      obtain ⟨ps, hps, hd, hfit, hheight⟩ := hexpression _ _ _ hinner
      refine ⟨_, ?_, .parenthesized hd, ⟨?_, hfit.2⟩, hheight⟩
      · simp [hps]
      · have := hfit.1
        simp only [List.cons_append, nesting_cons, nesting_append, nesting_nil]
        omega
    · cases h
  · cases h

theorem reads_of_runSign {operand : Production} (hoperand : Sound .signed (k + 1) operand)
    (hk : k ≤ nestingLimit) (sign : Sign) {position : Nat} {tokens : List Token} {value : Measured}
    {rest : List Token} (h : runSign sign operand tokens = .ok (value, rest)) :
    Reads .signed k (⟨sign.lexeme, position⟩ :: tokens) value rest := by
  obtain ⟨⟨read, after⟩, hread, h⟩ := Except.bind_eq_ok.mp h
  obtain ⟨signed, hsigned, h⟩ := Except.bind_eq_ok.mp h
  cases h
  obtain ⟨ps, hps, hd, hfit, hheight⟩ := hoperand _ _ _ hread
  obtain ⟨hlimit, rfl⟩ := Measured.limited_eq_ok.mp hsigned
  simp only [hheight] at hlimit ⊢
  refine ⟨_, ?_, .sign sign hd, ⟨?_, hlimit⟩, rfl⟩
  · simp [hps]
  · have := hfit.1
    simp only [nesting_cons]
    omega

theorem sound_signed {operand atom : Production} (hoperand : Sound .signed (k + 1) operand)
    (hatom : Sound .atom k atom) (hk : k ≤ nestingLimit) :
    Sound .signed k (signed operand atom) := by
  intro tokens value rest h
  rw [run_signed] at h
  split at h
  · exact reads_of_runSign hoperand hk .plus h
  · exact reads_of_runSign hoperand hk .minus h
  · obtain ⟨ps, hps, hd, hfit, hheight⟩ := hatom _ _ _ h
    exact ⟨ps, hps, .ofAtom hd, hfit, hheight⟩

theorem sound_power {exponent signed : Production} (hexponent : Sound .power (k + 1) exponent)
    (hsigned : Sound .signed k signed) : Sound .power k (power exponent signed) := by
  intro tokens value rest h
  rw [run_power] at h
  obtain ⟨⟨base, after⟩, hbase, h⟩ := Except.bind_eq_ok.mp h
  obtain ⟨ls, hls, hl, hlfit, hlheight⟩ := hsigned _ _ _ hbase
  simp only [runExponent] at h
  split at h
  · obtain ⟨⟨right, after'⟩, hright, h⟩ := Except.bind_eq_ok.mp h
    obtain ⟨joined, hjoined, h⟩ := Except.bind_eq_ok.mp h
    cases h
    obtain ⟨rs, hrs, hr, hrfit, hrheight⟩ := hexponent _ _ _ hright
    obtain ⟨hlimit, rfl⟩ := Measured.limited_eq_ok.mp hjoined
    simp only [hlheight, hrheight] at hlimit ⊢
    refine ⟨_, ?_, .exponent hl hr, ⟨?_, hlimit⟩, rfl⟩
    · simp [hls, hrs]
    · have := hl.level_le_nesting
      have := hlfit.1
      have := hrfit.1
      simp only [nesting_append, nesting_cons]
      omega
  · cases h
    exact ⟨ls, hls, .ofSigned hl, hlfit, hlheight⟩

end Production

namespace Level

theorem sound_additive {k : Nat} {p : Production} (h : Sound .term k p) :
    Sound .expression k (Production.chain Operator.additive? p) := by
  refine Production.sound_chain h .ofTerm fun {x op ls l rs r} hop hl hr => ?_
  cases x with
  | plus => cases hop; exact .additive .add (.inl rfl) hl hr
  | minus => cases hop; exact .additive .sub (.inr rfl) hl hr
  | _ => cases hop

theorem sound_multiplicative {k : Nat} {p : Production} (h : Sound .power k p) :
    Sound .term k (Production.chain Operator.multiplicative? p) := by
  refine Production.sound_chain h .ofPower fun {x op ls l rs r} hop hl hr => ?_
  cases x with
  | star => cases hop; exact .multiplicative .mul (.inl rfl) hl hr
  | slash => cases hop; exact .multiplicative .div (.inr rfl) hl hr
  | _ => cases hop

/-- With `k - 1` levels open and room for the others, the three productions that open a level are
sound. -/
theorem sound_withRoom (finish room k : Nat) (h : k + room = nestingLimit + 1) :
    Sound .expression k (withRoom finish room).expression ∧
      Sound .power k (withRoom finish room).exponent ∧
      Sound .signed k (withRoom finish room).operand := by
  induction room generalizing k with
  | zero => exact ⟨nofun, nofun, nofun⟩
  | succ room ih =>
    obtain ⟨hexpression, hexponent, hoperand⟩ := ih (k + 1) (by omega)
    have hk : k ≤ nestingLimit := by omega
    have hatom : Sound .atom k (Production.atom finish (withRoom finish room).expression) :=
      Production.sound_atom hexpression hk
    have hsigned := Production.sound_signed hoperand hatom hk
    have hpower := Production.sound_power hexponent hsigned
    exact ⟨sound_additive (sound_multiplicative hpower), hpower, hsigned⟩

end Level

/-- A list of tokens that has a tree is a sentence for it, within the limits. -/
theorem Expr.sentence_of_ofTokens {tokens : List Token} {finish : Nat} {t : Expr}
    (h : ofTokens tokens finish = .ok t) :
    ∃ ps, Sentence ps t ∧ ps.map Placed.lexeme = tokens.map Token.lexeme ∧ Fits ps t := by
  rw [ofTokens_eq] at h
  obtain ⟨⟨value, rest⟩, hread, h⟩ := Except.bind_eq_ok.mp h
  have hsound := (Level.sound_withRoom finish nestingLimit 1 (Nat.add_comm _ _)).1
  obtain ⟨ps, hps, hd, hfit, -⟩ := hsound _ _ _ hread
  simp only [whole] at h
  split at h
  · cases h
    exact ⟨ps, hd, by simpa using hps.symm, hfit⟩
  · cases h

end Reckoner
