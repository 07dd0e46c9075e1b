import Reckoner.Expr.Basic
import Reckoner.Token.Basic

/-!
# The grammar of expressions

The grammar that the parser recognises, as a relation of its own: what a stretch of lexemes stands
for, without cursor, counters or limits. Chains of equal priority are left-recursive, so that they
group to the left; a power is right-recursive.

Every lexeme of a sentence carries the number of levels that are open around it. The whole sentence,
a parenthesis, an argument, an exponent and the operand of a sign open one level each. The nesting
of a sentence is the greatest of these numbers.
-/
namespace Reckoner

def Sign.lexeme : Sign → Lexeme
  | plus => .plus
  | minus => .minus

def Operator.lexeme : Operator → Lexeme
  | add => .plus
  | sub => .minus
  | mul => .star
  | div => .slash
  | pow => .doubleStar

namespace Grammar

/-- The phrases that stand for one tree. -/
inductive Symbol where
  | expression
  | term
  | power
  | signed
  | atom

/-- A lexeme and the number of levels open around it. -/
structure Placed where
  lexeme : Lexeme
  level : Nat

/-- Phrases with a comma between each two of them. -/
def separated (k : Nat) (phrases : List (List Placed)) : List Placed :=
  [⟨.comma, k⟩].intercalate phrases

/-- `Derives s k ps t`: with `k` levels open around it, the phrase `ps` of kind `s` stands for the
tree `t`. -/
inductive Derives : Symbol → Nat → List Placed → Expr → Prop where
  | ofTerm {k ps t} (h : Derives .term k ps t) : Derives .expression k ps t
  | additive {k ls l rs r} (op : Operator) (hop : op = .add ∨ op = .sub)
      (hl : Derives .expression k ls l) (hr : Derives .term k rs r) :
      Derives .expression k (ls ++ ⟨op.lexeme, k⟩ :: rs) (.binary op l r)
  | ofPower {k ps t} (h : Derives .power k ps t) : Derives .term k ps t
  | multiplicative {k ls l rs r} (op : Operator) (hop : op = .mul ∨ op = .div)
      (hl : Derives .term k ls l) (hr : Derives .power k rs r) :
      Derives .term k (ls ++ ⟨op.lexeme, k⟩ :: rs) (.binary op l r)
  | ofSigned {k ps t} (h : Derives .signed k ps t) : Derives .power k ps t
  | exponent {k ls l rs r} (hl : Derives .signed k ls l) (hr : Derives .power (k + 1) rs r) :
      Derives .power k (ls ++ ⟨.doubleStar, k⟩ :: rs) (.binary .pow l r)
  | ofAtom {k ps t} (h : Derives .atom k ps t) : Derives .signed k ps t
  | sign {k ps t} (s : Sign) (h : Derives .signed (k + 1) ps t) :
      Derives .signed k (⟨s.lexeme, k⟩ :: ps) (.signed s t)
  | number {k} (value : Float) : Derives .atom k [⟨.number value, k⟩] (.number value)
  | name {k} (text : String) : Derives .atom k [⟨.name text, k⟩] (.name text)
  | parenthesized {k ps t} (h : Derives .expression (k + 1) ps t) :
      Derives .atom k (⟨.leftParen, k⟩ :: ps ++ [⟨.rightParen, k⟩]) t
  /-- Arguments are a comma apart; after at least one of them a last comma may stand. -/
  | call {k} (function : String) (arguments : List (List Placed × Expr)) (last : List Placed)
      (hlast : last = [] ∨ last = [⟨.comma, k⟩] ∧ arguments ≠ [])
      (h : ∀ a ∈ arguments, Derives .expression (k + 1) a.1 a.2) :
      Derives .atom k
        (⟨.name function, k⟩ :: ⟨.leftParen, k⟩ ::
          (separated k (arguments.map Prod.fst) ++ last ++ [⟨.rightParen, k⟩]))
        (.call function (arguments.map Prod.snd))

/-- A whole sentence opens the first level. -/
def Sentence (ps : List Placed) (t : Expr) : Prop := Derives .expression 1 ps t

/-- The greatest number of levels open around a lexeme. -/
def nesting (ps : List Placed) : Nat := (ps.map Placed.level).foldr max 0

@[simp] theorem nesting_nil : nesting [] = 0 := rfl

@[simp] theorem nesting_cons (p : Placed) (ps : List Placed) :
    nesting (p :: ps) = max p.level (nesting ps) := rfl

@[simp] theorem nesting_append (ps qs : List Placed) :
    nesting (ps ++ qs) = max (nesting ps) (nesting qs) := by
  induction ps with
  | nil => simp
  | cons p ps ih => simp [ih, Nat.max_assoc]

/-- Some lexeme of a phrase stands at the level of the phrase. -/
theorem Derives.level_le_nesting {s : Symbol} {k : Nat} {ps : List Placed} {t : Expr}
    (h : Derives s k ps t) : k ≤ nesting ps := by
  induction h with
  | ofTerm _ ih | ofPower _ ih | ofSigned _ ih | ofAtom _ ih => exact ih
  | _ => simp only [nesting_append, nesting_cons, List.cons_append]; omega

/-- No phrase starts with a closing parenthesis, and no atom with a sign. -/
theorem Derives.exists_head {s : Symbol} {k : Nat} {ps : List Placed} {t : Expr}
    (h : Derives s k ps t) : ∃ p qs, ps = p :: qs ∧ p.lexeme ≠ .rightParen ∧
      (s = .atom → p.lexeme ≠ .plus ∧ p.lexeme ≠ .minus) := by
  induction h with
  | ofTerm _ ih | ofPower _ ih | ofSigned _ ih | ofAtom _ ih =>
    obtain ⟨p, qs, rfl, hp, -⟩ := ih
    exact ⟨p, qs, rfl, hp, nofun⟩
  | additive _ _ _ _ ih _ | multiplicative _ _ _ _ ih _ | exponent _ _ ih _ =>
    obtain ⟨p, qs, rfl, hp, -⟩ := ih
    exact ⟨p, _, rfl, hp, nofun⟩
  | sign s => exact ⟨_, _, rfl, by cases s <;> exact nofun, nofun⟩
  | number | name | parenthesized | call => exact ⟨_, _, rfl, nofun, fun _ => ⟨nofun, nofun⟩⟩

@[simp] theorem separated_nil (k : Nat) : separated k [] = [] := rfl

@[simp] theorem separated_cons (k : Nat) (ps : List Placed) (phrases : List (List Placed)) :
    separated k (ps :: phrases) = ps ++ phrases.flatMap (⟨.comma, k⟩ :: ·) := by
  induction phrases generalizing ps with
  | nil => simp [separated, List.intercalate]
  | cons qs phrases ih =>
    have hcons : separated k (ps :: qs :: phrases) =
        ps ++ ⟨.comma, k⟩ :: separated k (qs :: phrases) := by
      simp [separated, List.intercalate]
    rw [hcons, ih, List.flatMap_cons, List.cons_append]

theorem separated_concat (k : Nat) {phrases : List (List Placed)} (h : phrases ≠ [])
    (ps : List Placed) :
    separated k (phrases ++ [ps]) = separated k phrases ++ ⟨.comma, k⟩ :: ps := by
  cases phrases with
  | nil => contradiction
  | cons qs phrases => simp [List.flatMap_append]

theorem nesting_flatMap_le_iff {k n : Nat} (hk : k ≤ n) (phrases : List (List Placed)) :
    nesting (phrases.flatMap (⟨.comma, k⟩ :: ·)) ≤ n ↔ ∀ ps ∈ phrases, nesting ps ≤ n := by
  induction phrases with
  | nil => simp
  | cons ps phrases ih =>
    simp only [List.flatMap_cons, nesting_append, nesting_cons, Nat.max_le, ih,
      List.forall_mem_cons]
    exact ⟨fun h => ⟨h.1.2, h.2⟩, fun h => ⟨⟨hk, h.1⟩, h.2⟩⟩

theorem nesting_separated_le_iff {k n : Nat} (hk : k ≤ n) (phrases : List (List Placed)) :
    nesting (separated k phrases) ≤ n ↔ ∀ ps ∈ phrases, nesting ps ≤ n := by
  cases phrases with
  | nil => simp
  | cons ps phrases =>
    rw [separated_cons, nesting_append, Nat.max_le, nesting_flatMap_le_iff hk, List.forall_mem_cons]

end Grammar
end Reckoner
