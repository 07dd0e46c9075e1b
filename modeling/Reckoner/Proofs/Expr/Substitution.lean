import Reckoner.Proofs.Expr.Text

/-!
# Substitution in a text

A number in a phrase is a leaf of its tree, and the phrases around it do not depend on which phrase
of the same kind stands there. So an expression in parentheses may stand where a number stood, in
any operation, call, power or sign, and its tree takes the place of the leaf. Only the levels that
it opens may be too many.

Which leaf it is, is told by the numbers on its left: the numbers of a tree, from left to right, are
those of its phrase.
-/
namespace Reckoner

open Grammar (Placed Derives Symbol separated)
open Lexicon (Lexemes Spells)

section Place

variable {α : Type} {l r b a : List α} {x : α}

theorem exists_of_append_eq (h : l ++ r = b ++ x :: a) :
    (∃ a', l = b ++ x :: a' ∧ a = a' ++ r) ∨ ∃ b', r = b' ++ x :: a ∧ b = l ++ b' := by
  rcases List.append_eq_append_iff.mp h with ⟨b', rfl, hr⟩ | ⟨a', rfl, ha⟩
  · exact .inr ⟨b', hr, rfl⟩
  · cases a' with
    | nil => exact .inr ⟨[], ha.symm, by simp⟩
    | cons y a' =>
      obtain ⟨rfl, rfl⟩ := List.cons.inj ha
      exact .inl ⟨a', rfl, rfl⟩

theorem exists_of_append_eq_left (h : l ++ r = b ++ x :: a) (hx : x ∉ r) :
    ∃ a', l = b ++ x :: a' ∧ a = a' ++ r := by
  rcases exists_of_append_eq h with hl | ⟨b', rfl, -⟩
  · exact hl
  · simp at hx

theorem exists_of_append_eq_right (h : l ++ r = b ++ x :: a) (hx : x ∉ l) :
    ∃ b', r = b' ++ x :: a ∧ b = l ++ b' := by
  rcases exists_of_append_eq h with ⟨a', rfl, -⟩ | hr
  · simp at hx
  · exact hr

theorem exists_of_cons_eq {y : α} (h : y :: r = b ++ x :: a) (hx : x ≠ y) :
    ∃ b', r = b' ++ x :: a ∧ b = y :: b' :=
  exists_of_append_eq_right (l := [y]) h (by simpa using hx)

end Place

/-- The value of a number. -/
def Lexeme.value? : Lexeme → Option Float
  | number value => some value
  | _ => none

namespace Expr

mutual

/-- The values of the numbers of a tree, from left to right. -/
def numbers : Expr → List Float
  | number value => [value]
  | name _ => []
  | signed _ operand => operand.numbers
  | binary _ left right => left.numbers ++ right.numbers
  | call _ arguments => listNumbers arguments

def listNumbers : List Expr → List Float
  | [] => []
  | first :: rest => first.numbers ++ listNumbers rest

end

theorem listNumbers_append (es fs : List Expr) :
    listNumbers (es ++ fs) = listNumbers es ++ listNumbers fs := by
  induction es with
  | nil => rfl
  | cons e es ih => rw [List.cons_append, listNumbers, listNumbers, ih, List.append_assoc]

/-- A tree with a hole in the place of one leaf. -/
inductive Context where
  | hole
  | signed (sign : Sign) (operand : Context)
  | left (operator : Operator) (left : Context) (right : Expr)
  | right (operator : Operator) (left : Expr) (right : Context)
  | argument (function : String) (before : List Expr) (argument : Context) (after : List Expr)

namespace Context

/-- The tree with another one in the hole. -/
def fill : Context → Expr → Expr
  | hole, t => t
  | signed sign operand, t => .signed sign (operand.fill t)
  | left operator l r, t => .binary operator (l.fill t) r
  | right operator l r, t => .binary operator l (r.fill t)
  | argument function before a after, t => .call function (before ++ a.fill t :: after)

/-- The values of the numbers on the left of the hole. -/
def numbersBefore : Context → List Float
  | hole => []
  | signed _ operand => operand.numbersBefore
  | left _ l _ => l.numbersBefore
  | right _ l r => l.numbers ++ r.numbersBefore
  | argument _ before a _ => listNumbers before ++ a.numbersBefore

/-- The values of the numbers on the right of the hole. -/
def numbersAfter : Context → List Float
  | hole => []
  | signed _ operand => operand.numbersAfter
  | left _ l r => l.numbersAfter ++ r.numbers
  | right _ _ r => r.numbersAfter
  | argument _ _ a after => a.numbersAfter ++ listNumbers after

theorem numbers_fill (C : Context) (t : Expr) :
    (C.fill t).numbers = C.numbersBefore ++ t.numbers ++ C.numbersAfter := by
  induction C with
  | hole => simp [fill, numbersBefore, numbersAfter]
  | signed sign operand ih => exact ih
  | left operator l r ih => simp [fill, numbers, numbersBefore, numbersAfter, ih]
  | right operator l r ih => simp [fill, numbers, numbersBefore, numbersAfter, ih]
  | argument function before a after ih =>
    simp [fill, numbers, numbersBefore, numbersAfter, listNumbers_append, listNumbers, ih]

theorem numbersBefore_ne (C : Context) (value : Float) (others : List Float) :
    C.numbersBefore ≠ (C.fill (.number value)).numbers ++ others := by
  intro h
  have hlength := congrArg List.length h
  simp only [numbers_fill, numbers, List.length_append, List.length_singleton] at hlength
  omega

theorem listNumbers_append_ne (before between : List Expr) (C D : Context) (value : Float) :
    listNumbers before ++ C.numbersBefore ≠
      listNumbers (before ++ C.fill (.number value) :: between) ++ D.numbersBefore := by
  intro h
  rw [listNumbers_append, listNumbers, List.append_assoc, List.append_assoc] at h
  exact C.numbersBefore_ne value _ (List.append_cancel_left h)

/-- A leaf that is a number is told by the numbers on its left: of two holes in different places,
the number of the first would stand on the left of the second. -/
theorem eq_of_fill_eq {C D : Context} {value : Float}
    (h : C.fill (.number value) = D.fill (.number value))
    (hbefore : C.numbersBefore = D.numbersBefore) : C = D := by
  induction C generalizing D with
  | hole =>
    cases D with
    | hole => rfl
    | _ => simp [fill] at h
  | signed sign operand ih =>
    cases D with
    | signed =>
      obtain ⟨rfl, hfill⟩ := Expr.signed.inj h
      rw [ih hfill hbefore]
    | _ => simp [fill] at h
  | left operator l r ih =>
    cases D with
    | left =>
      obtain ⟨rfl, hfill, rfl⟩ := Expr.binary.inj h
      rw [ih hfill hbefore]
    | right =>
      obtain ⟨rfl, rfl, rfl⟩ := Expr.binary.inj h
      exact absurd hbefore (l.numbersBefore_ne value _)
    | _ => simp [fill] at h
  | right operator l r ih =>
    cases D with
    | left operator' l' r' =>
      obtain ⟨rfl, rfl, rfl⟩ := Expr.binary.inj h
      exact absurd hbefore.symm (l'.numbersBefore_ne value _)
    | right =>
      obtain ⟨rfl, rfl, hfill⟩ := Expr.binary.inj h
      rw [ih hfill (List.append_cancel_left hbefore)]
    | _ => simp [fill] at h
  | argument function before a after ih =>
    cases D with
    | argument function' before' a' after' =>
      obtain ⟨rfl, hlists⟩ := Expr.call.inj h
      rcases exists_of_append_eq hlists with ⟨between, rfl, -⟩ | ⟨between, hrest, rfl⟩
      · exact absurd hbefore.symm (listNumbers_append_ne before' between a' a value)
      · cases between with
        | nil =>
          obtain ⟨hfill, rfl⟩ := List.cons.inj hrest
          rw [List.append_nil] at hbefore ⊢
          rw [ih hfill (List.append_cancel_left hbefore)]
        | cons t between =>
          obtain ⟨rfl, rfl⟩ := List.cons.inj hrest
          exact absurd hbefore (listNumbers_append_ne before between a a' value)
    | _ => simp [fill] at h

end Context
end Expr

namespace Grammar

variable {s : Symbol} {k : Nat} {ps : List Placed} {t : Expr}

/-- The values of the numbers in a phrase. -/
def numbers (ps : List Placed) : List Float := ps.filterMap fun p => p.lexeme.value?

@[simp] theorem numbers_nil : numbers [] = [] := rfl

@[simp] theorem numbers_append (ps qs : List Placed) :
    numbers (ps ++ qs) = numbers ps ++ numbers qs := List.filterMap_append

theorem numbers_cons_number (value : Float) (k : Nat) (ps : List Placed) :
    numbers (⟨.number value, k⟩ :: ps) = value :: numbers ps := rfl

theorem numbers_cons_of_value? {p : Placed} (h : p.lexeme.value? = none) (ps : List Placed) :
    numbers (p :: ps) = numbers ps := List.filterMap_cons_none h

/-- Tokens and a phrase of the same lexemes have the same numbers. -/
theorem filterMap_value?_eq {tokens : List Token}
    (h : tokens.map Token.lexeme = ps.map Placed.lexeme) :
    tokens.filterMap (fun token => token.lexeme.value?) = numbers ps := by
  have hvalues := congrArg (List.filterMap Lexeme.value?) h
  rwa [List.filterMap_map, List.filterMap_map] at hvalues

theorem numbers_flatMap_comma (k : Nat) {arguments : List (List Placed × Expr)}
    (h : ∀ a ∈ arguments, numbers a.1 = a.2.numbers) :
    numbers ((arguments.map Prod.fst).flatMap (⟨.comma, k⟩ :: ·)) =
      Expr.listNumbers (arguments.map Prod.snd) := by
  induction arguments with
  | nil => rfl
  | cons a arguments ih =>
    rw [List.forall_mem_cons] at h
    rw [List.map_cons, List.map_cons, List.flatMap_cons, numbers_append,
      numbers_cons_of_value? rfl, h.1, ih h.2, Expr.listNumbers]

theorem numbers_separated (k : Nat) {arguments : List (List Placed × Expr)}
    (h : ∀ a ∈ arguments, numbers a.1 = a.2.numbers) :
    numbers (separated k (arguments.map Prod.fst)) =
      Expr.listNumbers (arguments.map Prod.snd) := by
  cases arguments with
  | nil => rfl
  | cons a arguments =>
    rw [List.forall_mem_cons] at h
    rw [List.map_cons, separated_cons, numbers_append, h.1, numbers_flatMap_comma k h.2,
      List.map_cons, Expr.listNumbers]

/-- The numbers of a phrase are those of its tree, in the same order. -/
theorem Derives.numbers_eq (h : Derives s k ps t) : numbers ps = t.numbers := by
  induction h with
  | ofTerm _ ih | ofPower _ ih | ofSigned _ ih | ofAtom _ ih => exact ih
  | additive op _ _ _ ihl ihr | multiplicative op _ _ _ ihl ihr =>
    rw [numbers_append, numbers_cons_of_value? (by cases op <;> rfl), ihl, ihr, Expr.numbers]
  | exponent _ _ ihl ihr =>
    rw [numbers_append, numbers_cons_of_value? rfl, ihl, ihr, Expr.numbers]
  | sign s _ ih => rw [numbers_cons_of_value? (by cases s <;> rfl), ih, Expr.numbers]
  | number value => rfl
  | name text => rfl
  | parenthesized _ ih =>
    rw [List.cons_append, numbers_cons_of_value? rfl, numbers_append, ih,
      numbers_cons_of_value? rfl, numbers_nil, List.append_nil]
  | call function arguments last hlast _ ih =>
    have hnone : numbers last = [] := by rcases hlast with rfl | ⟨rfl, -⟩ <;> rfl
    rw [numbers_cons_of_value? rfl, numbers_cons_of_value? rfl, numbers_append, numbers_append,
      numbers_separated _ ih, hnone, numbers_cons_of_value? rfl, numbers_nil, List.append_nil,
      List.append_nil, Expr.numbers]

def Placed.raise (d : Nat) (p : Placed) : Placed := ⟨p.lexeme, p.level + d⟩

theorem map_raise_separated (d k : Nat) (phrases : List (List Placed)) :
    (separated k phrases).map (Placed.raise d) =
      separated (k + d) (phrases.map (List.map (Placed.raise d))) := by
  cases phrases with
  | nil => rfl
  | cons ps phrases =>
    rw [separated_cons, List.map_cons, separated_cons, List.map_append, List.map_flatMap,
      List.flatMap_map]
    rfl

/-- A phrase stands for the same tree with more levels around it. -/
theorem Derives.raise (h : Derives s k ps t) (d : Nat) :
    Derives s (k + d) (ps.map (Placed.raise d)) t := by
  induction h with
  | ofTerm _ ih => exact .ofTerm ih
  | ofPower _ ih => exact .ofPower ih
  | ofSigned _ ih => exact .ofSigned ih
  | ofAtom _ ih => exact .ofAtom ih
  | additive op hop _ _ ihl ihr =>
    rw [List.map_append]
    exact .additive op hop ihl ihr
  | multiplicative op hop _ _ ihl ihr =>
    rw [List.map_append]
    exact .multiplicative op hop ihl ihr
  | @exponent k ls l rs r _ _ ihl ihr =>
    rw [Nat.add_right_comm] at ihr
    rw [List.map_append]
    exact .exponent ihl ihr
  | @sign k ps t s _ ih =>
    rw [Nat.add_right_comm] at ih
    exact .sign s ih
  | number value => exact .number value
  | name text => exact .name text
  | @parenthesized k ps t _ ih =>
    rw [Nat.add_right_comm] at ih
    rw [List.map_append]
    exact .parenthesized ih
  | @call k function arguments last hlast _ ih =>
    have hraised := Derives.call (k := k + d) function
      (arguments.map fun a => (a.1.map (Placed.raise d), a.2)) (last.map (Placed.raise d)) (by
        rcases hlast with rfl | ⟨rfl, hne⟩
        · exact .inl rfl
        · exact .inr ⟨rfl, by simpa using hne⟩) (by
        simpa only [List.forall_mem_map, Nat.add_right_comm] using ih)
    simpa only [List.map_cons, List.map_append, map_raise_separated, List.map_map,
      Function.comp_def, Placed.raise, List.map_nil] using hraised

/-- The phrases before an argument, each with the comma after it. -/
def leading (k : Nat) (phrases : List (List Placed)) : List Placed :=
  phrases.flatMap (· ++ [⟨.comma, k⟩])

theorem separated_cons_of_ne_nil (k : Nat) (ps : List Placed) {phrases : List (List Placed)}
    (h : phrases ≠ []) :
    separated k (ps :: phrases) = ps ++ ⟨.comma, k⟩ :: separated k phrases := by
  cases phrases with
  | nil => contradiction
  | cons qs phrases => rw [separated_cons, separated_cons, List.flatMap_cons, List.cons_append]

theorem separated_append_cons (k : Nat) (phrases₁ : List (List Placed)) (ps : List Placed)
    (phrases₂ : List (List Placed)) :
    separated k (phrases₁ ++ ps :: phrases₂) =
      leading k phrases₁ ++ ps ++ phrases₂.flatMap (⟨.comma, k⟩ :: ·) := by
  induction phrases₁ with
  | nil => rw [List.nil_append, separated_cons, leading, List.flatMap_nil, List.nil_append]
  | cons qs phrases₁ ih =>
    rw [List.cons_append, separated_cons_of_ne_nil k qs (by simp), ih]
    simp [leading]

/-- What is no comma stands in one of the phrases. -/
theorem exists_of_separated_eq {k : Nat} {arguments : List (List Placed × Expr)} {x : Placed}
    (hx : x.lexeme ≠ .comma) {before after : List Placed}
    (h : separated k (arguments.map Prod.fst) = before ++ x :: after) :
    ∃ args₁ b a t args₂, arguments = args₁ ++ (b ++ x :: a, t) :: args₂ ∧
      before = leading k (args₁.map Prod.fst) ++ b ∧
      after = a ++ (args₂.map Prod.fst).flatMap (⟨.comma, k⟩ :: ·) := by
  induction arguments generalizing before with
  | nil => simp at h
  | cons arg arguments ih =>
    obtain ⟨ps, t⟩ := arg
    rw [List.map_cons, separated_cons] at h
    rcases exists_of_append_eq h with ⟨a, rfl, rfl⟩ | ⟨b', hlater, rfl⟩
    · exact ⟨[], before, a, t, arguments, rfl, rfl, rfl⟩
    · cases arguments with
      | nil => simp at hlater
      | cons next arguments =>
        have hne : x ≠ ⟨.comma, k⟩ := fun heq => hx (heq ▸ rfl)
        rw [List.map_cons, List.flatMap_cons, List.cons_append] at hlater
        obtain ⟨b, hrest, rfl⟩ := exists_of_cons_eq hlater hne
        rw [List.map_cons, separated_cons] at ih
        obtain ⟨args₁, b, a, t', args₂, hargs, rfl, rfl⟩ := ih hrest
        exact ⟨(ps, t) :: args₁, b, a, t', args₂, congrArg _ hargs, by simp [leading], rfl⟩

/-- With an atom between them, these lexemes stand for a tree with that of the atom in the hole. -/
def Surrounds (s : Symbol) (k n : Nat) (before after : List Placed) (C : Expr.Context) : Prop :=
  ∀ qs A, Derives .atom n qs A → Derives s k (before ++ qs ++ after) (C.fill A)

/-- Each number of the phrase is a leaf of the tree, and an atom in the place of the number makes a
phrase for the tree with that of the atom in the place of the leaf. -/
def Substitutes (s : Symbol) (k : Nat) (ps : List Placed) (t : Expr) : Prop :=
  ∀ before value n after, ps = before ++ ⟨.number value, n⟩ :: after →
    ∃ C : Expr.Context, C.fill (.number value) = t ∧ Surrounds s k n before after C

theorem Substitutes.mono {s s' : Symbol} {k : Nat} {ps : List Placed} {t : Expr}
    (h : Substitutes s k ps t) (hmono : ∀ {ps t}, Derives s k ps t → Derives s' k ps t) :
    Substitutes s' k ps t := by
  intro before value n after hps
  obtain ⟨C, hfill, hC⟩ := h before value n after hps
  exact ⟨C, hfill, fun qs A hqs => hmono (hC qs A hqs)⟩

theorem substitutes_number (k : Nat) (value : Float) :
    Substitutes .atom k [⟨.number value, k⟩] (.number value) := by
  intro before value' n after hps
  obtain ⟨rfl, hnumber, rfl⟩ : before = [] ∧
      (⟨.number value', n⟩ : Placed) = ⟨.number value, k⟩ ∧ after = [] := by
    cases before <;> simp_all
  obtain ⟨rfl, rfl⟩ : value' = value ∧ n = k := by simpa using hnumber
  exact ⟨.hole, rfl, fun qs A hqs => by simpa [Expr.Context.fill] using hqs⟩

theorem Substitutes.binary {s s₁ s₂ : Symbol} {k k₁ k₂ : Nat} {ls rs : List Placed} {l r : Expr}
    (op : Operator)
    (join : ∀ {ls l rs r}, Derives s₁ k₁ ls l → Derives s₂ k₂ rs r →
      Derives s k (ls ++ ⟨op.lexeme, k⟩ :: rs) (.binary op l r))
    (hl : Derives s₁ k₁ ls l) (hr : Derives s₂ k₂ rs r) (ihl : Substitutes s₁ k₁ ls l)
    (ihr : Substitutes s₂ k₂ rs r) :
    Substitutes s k (ls ++ ⟨op.lexeme, k⟩ :: rs) (.binary op l r) := by
  intro before value n after hps
  rcases exists_of_append_eq hps with ⟨a, rfl, rfl⟩ | ⟨b, hright, rfl⟩
  · obtain ⟨C, rfl, hC⟩ := ihl before value n a rfl
    refine ⟨.left op C r, rfl, fun qs A hqs => ?_⟩
    rw [← List.append_assoc]
    exact join (hC qs A hqs) hr
  · obtain ⟨b, rfl, rfl⟩ := exists_of_cons_eq hright (by cases op <;> simp [Operator.lexeme])
    obtain ⟨C, rfl, hC⟩ := ihr b value n after rfl
    refine ⟨.right op l C, rfl, fun qs A hqs => ?_⟩
    rw [List.append_assoc, List.append_assoc, List.cons_append, ← List.append_assoc]
    exact join hl (hC qs A hqs)

theorem Substitutes.sign {k : Nat} {ps : List Placed} {t : Expr} (sign : Sign)
    (ih : Substitutes .signed (k + 1) ps t) :
    Substitutes .signed k (⟨sign.lexeme, k⟩ :: ps) (.signed sign t) := by
  intro before value n after hps
  obtain ⟨b, rfl, rfl⟩ := exists_of_cons_eq hps (by cases sign <;> simp [Sign.lexeme])
  obtain ⟨C, rfl, hC⟩ := ih b value n after rfl
  exact ⟨.signed sign C, rfl, fun qs A hqs => .sign sign (hC qs A hqs)⟩

theorem Substitutes.parenthesized {k : Nat} {ps : List Placed} {t : Expr}
    (ih : Substitutes .expression (k + 1) ps t) :
    Substitutes .atom k (⟨.leftParen, k⟩ :: ps ++ [⟨.rightParen, k⟩]) t := by
  intro before value n after hps
  obtain ⟨b, hinner, rfl⟩ := exists_of_cons_eq hps (by simp)
  obtain ⟨a, rfl, rfl⟩ := exists_of_append_eq_left hinner (by simp)
  obtain ⟨C, rfl, hC⟩ := ih b value n a rfl
  refine ⟨C, rfl, fun qs A hqs => ?_⟩
  have hparen := Derives.parenthesized (hC qs A hqs)
  simpa using hparen

theorem substitutes_call {k : Nat} (function : String) {arguments : List (List Placed × Expr)}
    {last : List Placed} (hlast : last = [] ∨ last = [⟨.comma, k⟩] ∧ arguments ≠ [])
    (h : ∀ a ∈ arguments, Derives .expression (k + 1) a.1 a.2)
    (ih : ∀ a ∈ arguments, Substitutes .expression (k + 1) a.1 a.2) :
    Substitutes .atom k
      (⟨.name function, k⟩ :: ⟨.leftParen, k⟩ ::
        (separated k (arguments.map Prod.fst) ++ last ++ [⟨.rightParen, k⟩]))
      (.call function (arguments.map Prod.snd)) := by
  intro before value n after hps
  have hnolast : (⟨.number value, n⟩ : Placed) ∉ last ++ [⟨.rightParen, k⟩] := by
    rcases hlast with rfl | ⟨rfl, -⟩ <;> simp
  obtain ⟨b₁, hparen, rfl⟩ := exists_of_cons_eq hps (by simp)
  obtain ⟨b₂, hclosed, rfl⟩ := exists_of_cons_eq hparen (by simp)
  rw [List.append_assoc] at hclosed
  obtain ⟨a₁, hphrases, rfl⟩ := exists_of_append_eq_left hclosed hnolast
  obtain ⟨args₁, b, a, t, args₂, rfl, rfl, rfl⟩ := exists_of_separated_eq (by simp) hphrases
  obtain ⟨C, hfill, hC⟩ := ih (b ++ ⟨.number value, n⟩ :: a, t) (by simp) b value n a rfl
  refine ⟨.argument function (args₁.map Prod.snd) C (args₂.map Prod.snd),
    by simp [Expr.Context.fill, hfill], fun qs A hqs => ?_⟩
  have hcall := Derives.call (k := k) function (args₁ ++ (b ++ qs ++ a, C.fill A) :: args₂) last
    (hlast.imp_right fun hcomma => ⟨hcomma.1, by simp⟩) (by
      simp only [List.forall_mem_append, List.forall_mem_cons] at h ⊢
      exact ⟨h.1, hC qs A hqs, h.2.2⟩)
  rw [List.map_append, List.map_append, List.map_cons, List.map_cons,
    separated_append_cons] at hcall
  simpa [Expr.Context.fill] using hcall

/-- Any atom may stand in the place of a number. -/
theorem Derives.substitutes (h : Derives s k ps t) : Substitutes s k ps t := by
  induction h with
  | ofTerm _ ih => exact ih.mono .ofTerm
  | ofPower _ ih => exact ih.mono .ofPower
  | ofSigned _ ih => exact ih.mono .ofSigned
  | ofAtom _ ih => exact ih.mono .ofAtom
  | additive op hop hl hr ihl ihr => exact .binary op (.additive op hop) hl hr ihl ihr
  | multiplicative op hop hl hr ihl ihr => exact .binary op (.multiplicative op hop) hl hr ihl ihr
  | exponent hl hr ihl ihr => exact .binary .pow .exponent hl hr ihl ihr
  | sign sign _ ih => exact ih.sign sign
  | number value => exact substitutes_number _ value
  | name text =>
    intro before value n after hps
    cases before <;> simp at hps
  | parenthesized _ ih => exact ih.parenthesized
  | call function arguments last hlast h ih => exact substitutes_call function hlast h ih

theorem eq_of_forall_append_cons_eq {α : Type} [Nontrivial α] {l l' r r' : List α}
    (h : ∀ x, l ++ x :: r = l' ++ x :: r') : l = l' ∧ r = r' := by
  induction l generalizing l' with
  | nil =>
    cases l' with
    | nil =>
      obtain ⟨x, -⟩ := exists_pair_ne α
      exact ⟨rfl, (List.cons.inj (h x)).2⟩
    | cons y l' =>
      obtain ⟨x, hx⟩ := exists_ne y
      exact absurd (List.cons.inj (h x)).1 hx
  | cons y l ih =>
    cases l' with
    | nil =>
      obtain ⟨x, hx⟩ := exists_ne y
      exact absurd (List.cons.inj (h x)).1.symm hx
    | cons z l' =>
      obtain ⟨x, -⟩ := exists_pair_ne α
      obtain ⟨rfl, -⟩ := List.cons.inj (h x)
      obtain ⟨rfl, rfl⟩ := ih fun x => (List.cons.inj (h x)).2
      exact ⟨rfl, rfl⟩

/-- The hole stands among the numbers of the tree as the atom does among those of the phrase. Any
number may stand there, so its place is all that these lists have in common. -/
theorem Surrounds.numbers_eq {n : Nat} {before after : List Placed} {C : Expr.Context}
    (h : Surrounds s k n before after C) :
    numbers before = C.numbersBefore ∧ numbers after = C.numbersAfter := by
  have : Nontrivial Float := ⟨0, 1, by decide⟩
  refine eq_of_forall_append_cons_eq fun value => ?_
  have hnumbers := (h _ _ (.number value)).numbers_eq
  rw [Expr.Context.numbers_fill] at hnumbers
  simpa [numbers_cons_number, Expr.numbers] using hnumbers

/-- An expression in parentheses may stand in the place of a number. -/
theorem Derives.parenthesized_raise {n : Nat} {qs : List Placed} {A : Expr}
    (h : Derives .expression 1 qs A) :
    Derives .atom n
      (⟨.leftParen, n⟩ :: qs.map (Placed.raise n) ++ [⟨.rightParen, n⟩]) A := by
  have hraised := h.raise n
  rw [Nat.add_comm] at hraised
  exact .parenthesized hraised

end Grammar

namespace Lexicon

theorem lexemes_between_blanks_iff {cs ms ds : List Char} {ls : List Lexeme} :
    Lexemes (cs ++ ' ' :: (ms ++ ' ' :: ds)) ls ↔
      ∃ ls₁ ls₂ ls₃, ls = ls₁ ++ (ls₂ ++ ls₃) ∧ Lexemes cs ls₁ ∧ Lexemes ms ls₂ ∧
        Lexemes ds ls₃ := by
  rw [lexemes_append_blank_iff isBlank_space]
  constructor
  · rintro ⟨ls₁, ls₀, rfl, h₁, h₀⟩
    obtain ⟨ls₂, ls₃, rfl, h₂, h₃⟩ := (lexemes_append_blank_iff isBlank_space).mp h₀
    exact ⟨ls₁, ls₂, ls₃, rfl, h₁, h₂, h₃⟩
  · rintro ⟨ls₁, ls₂, ls₃, rfl, h₁, h₂, h₃⟩
    exact ⟨ls₁, ls₂ ++ ls₃, rfl, h₁,
      (lexemes_append_blank_iff isBlank_space).mpr ⟨ls₂, ls₃, rfl, h₂, h₃⟩⟩

theorem spells_zero : Spells ['0'] (.number 0) := by
  have hnumber : Number (['0'] ++ []) ⟨Nat.ofDigitChars 10 (['0'] ++ []) 0, 0 - 0⟩ :=
    .mk (.whole (List.forall_mem_singleton.mpr (by decide)) (by simp)) .absent
  have hzero :
      Binary64.nearest (Decimal.value ⟨Nat.ofDigitChars 10 (['0'] ++ []) 0, 0 - 0⟩) = 0 := by
    rw [Decimal.value_of_digits_eq_zero (by decide)]
    exact Decimal.nearest_of_nearestOrdinal_eq_zero Binary64.nearestOrdinal_zero
  exact hzero ▸ Spells.number hnumber

/-- Parentheses are cut from what stands between them. -/
theorem Lexemes.parenthesized {cs : List Char} {ls : List Lexeme} (h : Lexemes cs ls) :
    Lexemes ('(' :: (cs ++ [')'])) (.leftParen :: (ls ++ [.rightParen])) := by
  have hleft : Apart ['('] (cs ++ [')']) :=
    (separates_of_not_mem (by decide) (by decide)).apart_concat [] _
  have hright : Apart cs [')'] := (separates_of_not_mem (by decide) (by decide)).apart_cons cs []
  have hclosed : Lexemes (cs ++ [')']) (ls ++ [.rightParen]) :=
    hright.lexemes_append h Spells.rightParen.lexemes
  exact hleft.lexemes_append Spells.leftParen.lexemes hclosed

end Lexicon

theorem expandCarets_number_between (p q : String) :
    expandCarets (p ++ " 0 " ++ q).toList =
      expandCarets p.toList ++ ' ' :: (['0'] ++ ' ' :: expandCarets q.toList) := by
  have hzero : expandCarets " 0 ".toList = [' ', '0', ' '] := by decide
  simp only [String.toList_append, expandCarets_append, hzero, List.append_assoc, List.cons_append,
    List.nil_append]

theorem expandCarets_parentheses_between (p a q : String) :
    expandCarets (p ++ " (" ++ a ++ ") " ++ q).toList =
      expandCarets p.toList ++
        ' ' :: ('(' :: (expandCarets a.toList ++ [')']) ++ ' ' :: expandCarets q.toList) := by
  have hleft : expandCarets " (".toList = [' ', '('] := by decide
  have hright : expandCarets ") ".toList = [')', ' '] := by decide
  simp only [String.toList_append, expandCarets_append, hleft, hright, List.append_assoc,
    List.cons_append, List.nil_append]

namespace Expr

/-- A text in which a number stands between two others is a sentence around that number. -/
theorem exists_sentence_around {p q : String} {T : Expr}
    (h : ofText (p ++ " 0 " ++ q) = .ok T) :
    ∃ before n after, Lexemes (expandCarets p.toList) (before.map Placed.lexeme) ∧
      Lexemes (expandCarets q.toList) (after.map Placed.lexeme) ∧
      Grammar.Sentence (before ++ ⟨.number 0, n⟩ :: after) T := by
  obtain ⟨ps, hls, hsentence, -⟩ := exists_sentence_of_ofText h
  rw [expandCarets_number_between, Lexicon.lexemes_between_blanks_iff] at hls
  obtain ⟨ls₁, ls₂, ls₃, hps, h₁, h₂, h₃⟩ := hls
  obtain rfl := h₂.unique Lexicon.spells_zero.lexemes
  obtain ⟨before, middle, rfl, rfl, hmiddle⟩ := List.map_eq_append_iff.mp hps
  obtain ⟨⟨lexeme, n⟩, after, rfl, hlexeme, rfl⟩ := List.map_eq_cons_iff.mp hmiddle
  cases hlexeme
  exact ⟨before, n, after, h₁, h₃, hsentence⟩

/-- An expression in parentheses, with blanks around them, takes the place of a number and of
nothing else: the tree of the text is the tree that it has with the number, with the tree of the
expression in the place of the leaf, unless it is too nested. The leaf is the one that stands among
the numbers of the tree as the number stands among those of the text, and there is no other. -/
theorem ofText_substitute {p q a : String} {T A : Expr} (hT : ofText (p ++ " 0 " ++ q) = .ok T)
    (hA : ofText a = .ok A) :
    ∃ (C : Context) (before after : List Token),
      Token.scan (expandCarets p.toList) = .ok before ∧
      Token.scan (expandCarets q.toList) = .ok after ∧
      C.numbersBefore = before.filterMap (fun token => token.lexeme.value?) ∧
      C.numbersAfter = after.filterMap (fun token => token.lexeme.value?) ∧
      C.fill (.number 0) = T ∧
      (∀ D : Context, D.fill (.number 0) = T → D.numbersBefore = C.numbersBefore → D = C) ∧
      (ofText (p ++ " (" ++ a ++ ") " ++ q) = .ok (C.fill A) ∨
        ofText (p ++ " (" ++ a ++ ") " ++ q) = .error (.tooNested nestingLimit)) := by
  obtain ⟨ps, n, qs, hp, hq, hsentence⟩ := exists_sentence_around hT
  obtain ⟨inner, ha, hinner, -⟩ := exists_sentence_of_ofText hA
  obtain ⟨C, hfill, hC⟩ := hsentence.substitutes ps 0 n qs rfl
  obtain ⟨hbefore, hafter⟩ := hC.numbers_eq
  obtain ⟨before, hscanp, hps⟩ := Lexicon.lexemes_iff_scan.mp hp
  obtain ⟨after, hscanq, hqs⟩ := Lexicon.lexemes_iff_scan.mp hq
  refine ⟨C, before, after, hscanp, hscanq, ?_, ?_, hfill, fun D hD => ?_, ?_⟩
  · rw [← hbefore, Grammar.filterMap_value?_eq hps]
  · rw [← hafter, Grammar.filterMap_value?_eq hqs]
  · exact Context.eq_of_fill_eq (hD.trans hfill.symm)
  · have hwhole := hC _ A hinner.parenthesized_raise
    have hls : Lexemes (expandCarets (p ++ " (" ++ a ++ ") " ++ q).toList)
        ((ps ++ (Placed.mk .leftParen n :: inner.map (Grammar.Placed.raise n) ++
          [Placed.mk .rightParen n]) ++ qs).map Placed.lexeme) := by
      rw [expandCarets_parentheses_between, Lexicon.lexemes_between_blanks_iff]
      refine ⟨_, _, _, ?_, hp, ha.parenthesized, hq⟩
      simp [Grammar.Placed.raise, Function.comp_def]
    rw [ofText_of_lexemes hls hwhole]
    split
    · exact .inl rfl
    · exact .inr rfl

/-- A difference takes the place of the second zero, the base of a power. -/
theorem ofText_substitute_base :
    ofText ("0*" ++ " 0 " ++ "^e") =
        .ok (.binary .mul (.number 0) (.binary .pow (.number 0) (.name "e"))) ∧
      ofText "pi-e" = .ok (.binary .sub (.name "pi") (.name "e")) ∧
      ∃ C : Context, C.numbersBefore = [0] ∧ C.numbersAfter = [] ∧
        C.fill (.number 0) =
          .binary .mul (.number 0) (.binary .pow (.number 0) (.name "e")) ∧
        (ofText ("0*" ++ " (" ++ "pi-e" ++ ") " ++ "^e") =
            .ok (C.fill (.binary .sub (.name "pi") (.name "e"))) ∨
          ofText ("0*" ++ " (" ++ "pi-e" ++ ") " ++ "^e") = .error (.tooNested nestingLimit)) := by
  have hT : ofText ("0*" ++ " 0 " ++ "^e") =
      .ok (.binary .mul (.number 0) (.binary .pow (.number 0) (.name "e"))) := by
    with_unfolding_all rfl
  have hA : ofText "pi-e" = .ok (.binary .sub (.name "pi") (.name "e")) := by with_unfolding_all rfl
  have hscan : Token.scan (expandCarets "0*".toList) = .ok [⟨.number 0, 0⟩, ⟨.star, 1⟩] := by
    decide +kernel
  have hscan' : Token.scan (expandCarets "^e".toList) =
      .ok [⟨.doubleStar, 0⟩, ⟨.name "e", 2⟩] := by decide +kernel
  obtain ⟨C, before, after, hp, hq, hbefore, hafter, hfill, -, hread⟩ := ofText_substitute hT hA
  obtain rfl := Except.ok.inj (hp.symm.trans hscan)
  obtain rfl := Except.ok.inj (hq.symm.trans hscan')
  exact ⟨hT, hA, C, hbefore, hafter, hfill, hread⟩

end Expr

end Reckoner
