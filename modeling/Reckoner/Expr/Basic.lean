/-!
# Expression trees

A closed set of trees: numbers, names, signed operands, binary operations, and calls of a name with
positional arguments. `height` follows the tree; `depth` measures the same with a list of pending
subtrees, so that a very deep tree costs no deep recursion.
-/
namespace Reckoner

inductive Sign where
  | plus
  | minus
  deriving Repr, DecidableEq

inductive Operator where
  | add
  | sub
  | mul
  | div
  | pow
  deriving Repr, DecidableEq

def Sign.symbol : Sign → String
  | plus => "+"
  | minus => "-"

def Operator.symbol : Operator → String
  | add => "+"
  | sub => "-"
  | mul => "*"
  | div => "/"
  | pow => "**"

inductive Expr where
  | number (value : Float)
  | name (text : String)
  | signed (sign : Sign) (operand : Expr)
  | binary (operator : Operator) (left right : Expr)
  | call (function : String) (arguments : List Expr)

namespace Expr

mutual

/-- The height of a tree; a leaf and a call without arguments have height one. -/
def height : Expr → Nat
  | number _ => 1
  | name _ => 1
  | signed _ operand => operand.height + 1
  | binary _ left right => max left.height right.height + 1
  | call _ arguments => greatestHeight arguments + 1

/-- The greatest height among trees, zero if there are none. -/
def greatestHeight : List Expr → Nat
  | [] => 0
  | first :: rest => max first.height (greatestHeight rest)

end

mutual

/-- The number of nodes of a tree. -/
def size : Expr → Nat
  | number _ => 1
  | name _ => 1
  | signed _ operand => operand.size + 1
  | binary _ left right => left.size + right.size + 1
  | call _ arguments => totalSize arguments + 1

def totalSize : List Expr → Nat
  | [] => 0
  | first :: rest => first.size + totalSize rest

end

def children : Expr → List Expr
  | number _ => []
  | name _ => []
  | signed _ operand => [operand]
  | binary _ left right => [left, right]
  | call _ arguments => arguments

theorem size_eq_totalSize_children (e : Expr) : e.size = totalSize e.children + 1 := by
  cases e <;> simp [size, children, totalSize]

theorem totalSize_append (es fs : List Expr) :
    totalSize (es ++ fs) = totalSize es + totalSize fs := by
  induction es with
  | nil => simp [totalSize]
  | cons e es ih => simp [totalSize, ih, Nat.add_assoc]

/-- A subtree that is still to be visited, and the level at which it stands. -/
structure Pending where
  expr : Expr
  level : Nat

def Pending.below (p : Pending) : List Pending :=
  p.expr.children.map fun child => ⟨child, p.level + 1⟩

theorem Pending.map_expr_below (p : Pending) : p.below.map Pending.expr = p.expr.children := by
  simp [below, Function.comp_def]

/-- The deepest level met while the pending subtrees are visited, the last one first. -/
def deepest (found : Nat) : List Pending → Nat
  | [] => found
  | p :: rest => deepest (max found p.level) (p.below.reverse ++ rest)
termination_by pending => totalSize (pending.map Pending.expr)
decreasing_by
  have hrev (es : List Expr) : totalSize es.reverse = totalSize es := by
    induction es with
    | nil => rfl
    | cons e es ih => simp only [List.reverse_cons, totalSize_append, ih, totalSize]; omega
  simp only [List.map_append, List.map_reverse, Pending.map_expr_below, totalSize_append, hrev,
    List.map_cons, totalSize, size_eq_totalSize_children p.expr]
  omega

def depth (e : Expr) : Nat := deepest 0 [⟨e, 1⟩]

end Expr
end Reckoner
