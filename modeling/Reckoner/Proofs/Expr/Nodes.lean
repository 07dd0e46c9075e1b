import Reckoner.Expr.Basic

/-!
# The nodes of a tree

Every tree is made of its nodes, and what holds of a tree whenever it holds of its children holds of
every tree. This is the induction for statements that treat all kinds of node alike.
-/
namespace Reckoner.Expr

/-- A node of a tree: the tree itself, or a node of one of its children. -/
inductive HasNode : Expr → Expr → Prop where
  | root (t : Expr) : HasNode t t
  | inner {t child node : Expr} (hchild : child ∈ t.children) (h : HasNode child node) :
      HasNode t node

theorem size_le_totalSize {t : Expr} {ts : List Expr} (h : t ∈ ts) : t.size ≤ totalSize ts := by
  induction ts with
  | nil => cases h
  | cons first others ih =>
    rw [totalSize]
    rcases List.mem_cons.mp h with rfl | h
    · omega
    · have := ih h
      omega

theorem size_lt_of_mem_children {t child : Expr} (h : child ∈ t.children) :
    child.size < t.size := by
  have := size_le_totalSize h
  rw [size_eq_totalSize_children t]
  omega

/-- What holds of a tree if it holds of its children holds of every tree. -/
theorem induction_children {p : Expr → Prop}
    (h : ∀ t : Expr, (∀ child ∈ t.children, p child) → p t) (t : Expr) : p t := by
  induction hn : t.size using Nat.strongRecOn generalizing t with
  | ind n ih =>
    refine h t fun child hchild => ih child.size ?_ child rfl
    rw [← hn]
    exact size_lt_of_mem_children hchild

theorem hasNode_iff {t node : Expr} :
    HasNode t node ↔ node = t ∨ ∃ child ∈ t.children, HasNode child node := by
  constructor
  · rintro (_ | ⟨hchild, h⟩)
    · exact .inl rfl
    · exact .inr ⟨_, hchild, h⟩
  · rintro (rfl | ⟨child, hchild, h⟩)
    · exact .root node
    · exact .inner hchild h

end Reckoner.Expr
