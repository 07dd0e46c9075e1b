import Reckoner.Proofs.Expr.Nodes
import Reckoner.Proofs.Registry

/-!
# The checks of a tree

A name is checked against the constants, a call against the functions and the number of arguments,
a division against a zero divisor, a square root against a negative radicand. The checks of a tree
are listed in the order in which its nodes are met.
-/
namespace Reckoner

/-- What a node is checked for. -/
inductive Check where
  | name (text : String)
  | function (name : String)
  | arity (function : String) (received : Nat)
  | divisor (operand : Expr)
  | radicand (argument : Expr)

/-- The refusal of a check that fails. Operands and arguments that have no value fail checks of
their own. -/
def Check.refusal? : Check → Option Refusal
  | name text => if text ∈ Registry.constantNames then none else some (.unknownName text)
  | function text =>
    if text ∈ Registry.functionNames then none else some (.unknownFunction text)
  | arity called received =>
    match Registry.function? called with
    | none => none
    | some f =>
      if received = f.arity then none else some (Fault.arity called f.arity received).toRefusal
  | divisor operand =>
    match operand.evaluate with
    | .error _ => none
    | .ok b => if b = 0 ∨ b = -0 then some Fault.divisionByZero.toRefusal else none
  | radicand argument =>
    match argument.evaluate with
    | .error _ => none
    | .ok x => if x < 0 then some Fault.negativeRoot.toRefusal else none

/-- A check that fails refuses a name, a function or an operation, and nothing else. -/
theorem Check.kind_of_refusal? {check : Check} {refusal : Refusal}
    (h : check.refusal? = some refusal) :
    (∃ text, refusal = .unknownName text) ∨ (∃ name, refusal = .unknownFunction name) ∨
      ∃ detail, refusal = .invalidOperation detail := by
  cases check with
  | name text =>
    rw [refusal?, Option.ite_none_left_eq_some] at h
    cases h.2
    exact .inl ⟨_, rfl⟩
  | function text =>
    rw [refusal?, Option.ite_none_left_eq_some] at h
    cases h.2
    exact .inr (.inl ⟨_, rfl⟩)
  | arity called received =>
    rw [refusal?] at h
    split at h
    · cases h
    · rw [Option.ite_none_left_eq_some] at h
      cases h.2
      exact .inr (.inr ⟨_, rfl⟩)
  | divisor operand =>
    rw [refusal?] at h
    split at h
    · cases h
    · rw [Option.ite_none_right_eq_some] at h
      cases h.2
      exact .inr (.inr ⟨_, rfl⟩)
  | radicand argument =>
    rw [refusal?] at h
    split at h
    · cases h
    · rw [Option.ite_none_right_eq_some] at h
      cases h.2
      exact .inr (.inr ⟨_, rfl⟩)

namespace Expr

/-- The checks of a node before its children are looked at. -/
def checksBefore : Expr → List Check
  | name text => [.name text]
  | call function arguments => [.function function, .arity function arguments.length]
  | _ => []

/-- The checks of a node after its children have their values. -/
def checksAfter : Expr → List Check
  | binary .div _ right => [.divisor right]
  | call function arguments => if function = "sqrt" then arguments.map .radicand else []
  | _ => []

mutual

/-- All checks of a tree, in order. -/
def checks : Expr → List Check
  | number value => (number value).checksBefore ++ (number value).checksAfter
  | name text => (name text).checksBefore ++ (name text).checksAfter
  | signed sign operand =>
    (signed sign operand).checksBefore ++ operand.checks ++ (signed sign operand).checksAfter
  | binary operator left right =>
    (binary operator left right).checksBefore ++ (left.checks ++ right.checks) ++
      (binary operator left right).checksAfter
  | call function arguments =>
    (call function arguments).checksBefore ++ listChecks arguments ++
      (call function arguments).checksAfter

def listChecks : List Expr → List Check
  | [] => []
  | first :: rest => first.checks ++ listChecks rest

end

theorem listChecks_eq_flatMap (ts : List Expr) : listChecks ts = ts.flatMap checks := by
  induction ts with
  | nil => rfl
  | cons first rest ih => rw [listChecks, ih, List.flatMap_cons]

/-- The checks of a node stand around those of its children, from left to right. -/
theorem checks_eq (t : Expr) :
    t.checks = t.checksBefore ++ t.children.flatMap checks ++ t.checksAfter := by
  cases t with
  | number => rw [checks, children, List.flatMap_nil, List.append_nil]
  | name => rw [checks, children, List.flatMap_nil, List.append_nil]
  | signed => rw [checks, children, List.flatMap_cons, List.flatMap_nil, List.append_nil]
  | binary =>
    rw [checks, children, List.flatMap_cons, List.flatMap_cons, List.flatMap_nil, List.append_nil]
  | call => rw [checks, children, listChecks_eq_flatMap]

theorem mem_checks_iff {check : Check} (t : Expr) :
    check ∈ t.checks ↔
      ∃ node, HasNode t node ∧ (check ∈ node.checksBefore ∨ check ∈ node.checksAfter) := by
  induction t using induction_children with
  | h t ih =>
    rw [checks_eq, List.mem_append, List.mem_append, List.mem_flatMap]
    constructor
    · rintro ((hcheck | ⟨child, hchild, hcheck⟩) | hcheck)
      · exact ⟨t, .root t, .inl hcheck⟩
      · obtain ⟨node, hnode, hcheck⟩ := (ih child hchild).mp hcheck
        exact ⟨node, .inner hchild hnode, hcheck⟩
      · exact ⟨t, .root t, .inr hcheck⟩
    · rintro ⟨node, hnode, hcheck⟩
      rcases hasNode_iff.mp hnode with rfl | ⟨child, hchild, hnode⟩
      · exact hcheck.imp .inl id
      · exact .inl (.inr ⟨child, hchild, (ih child hchild).mpr ⟨node, hnode, hcheck⟩⟩)

/-- No node of the tree is at fault. -/
structure Allowed (t : Expr) : Prop where
  /-- every name is a constant -/
  names : ∀ text, HasNode t (.name text) → text ∈ Registry.constantNames
  /-- every call is of a function, with as many arguments as it takes -/
  calls : ∀ function arguments, HasNode t (.call function arguments) →
    ∃ f ∈ Registry.functions, f.name = function ∧ arguments.length = f.arity
  /-- no divisor is a zero of either sign -/
  divisors : ∀ left right b, HasNode t (.binary .div left right) → right.evaluate = .ok b →
    b ≠ 0 ∧ b ≠ -0
  /-- no radicand is negative -/
  radicands : ∀ arguments argument x, HasNode t (.call "sqrt" arguments) → argument ∈ arguments →
    argument.evaluate = .ok x → ¬ x < 0

theorem refusal?_divisor_eq_none_iff (operand : Expr) :
    (Check.divisor operand).refusal? = none ↔
      ∀ b, operand.evaluate = .ok b → b ≠ 0 ∧ b ≠ -0 := by
  rw [Check.refusal?]
  cases operand.evaluate with
  | error refusal => simp
  | ok b =>
    by_cases hzero : b = 0 ∨ b = -0
    · simp only [if_pos hzero, Except.ok.injEq, forall_eq']
      exact iff_of_false nofun fun h => hzero.elim h.1 h.2
    · simp only [if_neg hzero, Except.ok.injEq, forall_eq']
      exact iff_of_true trivial (not_or.mp hzero)

theorem refusal?_radicand_eq_none_iff (argument : Expr) :
    (Check.radicand argument).refusal? = none ↔ ∀ x, argument.evaluate = .ok x → ¬ x < 0 := by
  rw [Check.refusal?]
  cases argument.evaluate with
  | error refusal => simp
  | ok x =>
    by_cases hnegative : x < 0
    · simp [hnegative]
    · simp [hnegative]

theorem refusal?_name_eq_none_iff (text : String) :
    (Check.name text).refusal? = none ↔ text ∈ Registry.constantNames := by
  rw [Check.refusal?]
  by_cases h : text ∈ Registry.constantNames <;> simp [h]

/-- The two checks of a call before its arguments. -/
theorem refusal?_call_eq_none_iff (function : String) (received : Nat) :
    (Check.function function).refusal? = none ∧ (Check.arity function received).refusal? = none ↔
      ∃ f ∈ Registry.functions, f.name = function ∧ received = f.arity := by
  constructor
  · rintro ⟨hfunction, harity⟩
    have hname : function ∈ Registry.functionNames := by
      refine Decidable.of_not_not fun hnot => ?_
      rw [Check.refusal?, if_neg hnot] at hfunction
      cases hfunction
    obtain ⟨f, hf, rfl⟩ := List.mem_map.mp hname
    rw [Check.refusal?, Registry.function?_eq_some_of_mem hf] at harity
    refine ⟨f, hf, rfl, Decidable.of_not_not fun hnot => ?_⟩
    simp only [if_neg hnot] at harity
    cases harity
  · rintro ⟨f, hf, rfl, rfl⟩
    refine ⟨if_pos (List.mem_map_of_mem hf), ?_⟩
    rw [Check.refusal?, Registry.function?_eq_some_of_mem hf]
    exact if_pos rfl

/-- No check of an allowed tree fails. -/
theorem Allowed.refusal?_eq_none {t : Expr} (h : Allowed t) {check : Check}
    (hcheck : check ∈ t.checks) : check.refusal? = none := by
  obtain ⟨node, hnode, hcheck⟩ := (mem_checks_iff t).mp hcheck
  cases node with
  | number => exact hcheck.elim nofun nofun
  | name text =>
    rcases hcheck with hcheck | hcheck
    · rw [List.mem_singleton.mp hcheck]
      exact (refusal?_name_eq_none_iff text).mpr (h.names text hnode)
    · cases hcheck
  | signed => exact hcheck.elim nofun nofun
  | binary operator left right =>
    cases operator with
    | div =>
      rcases hcheck with hcheck | hcheck
      · cases hcheck
      · rw [List.mem_singleton.mp hcheck]
        exact (refusal?_divisor_eq_none_iff right).mpr fun b => h.divisors left right b hnode
    | _ => exact hcheck.elim nofun nofun
  | call function arguments =>
    obtain ⟨hfunction, harity⟩ := (refusal?_call_eq_none_iff function arguments.length).mpr
      (h.calls function arguments hnode)
    rcases hcheck with hcheck | hcheck
    · simp only [checksBefore, List.mem_cons, List.not_mem_nil, or_false] at hcheck
      rcases hcheck with rfl | rfl
      · exact hfunction
      · exact harity
    · rw [checksAfter] at hcheck
      by_cases hsqrt : function = "sqrt"
      · subst hsqrt
        rw [if_pos rfl] at hcheck
        obtain ⟨argument, hargument, rfl⟩ := List.mem_map.mp hcheck
        exact (refusal?_radicand_eq_none_iff argument).mpr fun x =>
          h.radicands arguments argument x hnode hargument
      · rw [if_neg hsqrt] at hcheck
        cases hcheck

/-- A tree is allowed if no check of any of its nodes fails. -/
theorem allowed_of_refusal?_eq_none {t : Expr} (h : ∀ node, HasNode t node → ∀ check,
    check ∈ node.checksBefore ∨ check ∈ node.checksAfter → check.refusal? = none) :
    Allowed t where
  names text hnode :=
    (refusal?_name_eq_none_iff text).mp (h _ hnode _ (.inl List.mem_cons_self))
  calls function arguments hnode := by
    refine (refusal?_call_eq_none_iff function arguments.length).mp ⟨?_, ?_⟩
    · exact h _ hnode _ (.inl List.mem_cons_self)
    · exact h _ hnode _ (.inl (List.mem_cons_of_mem _ List.mem_cons_self))
  divisors left right b hnode :=
    (refusal?_divisor_eq_none_iff right).mp (h _ hnode _ (.inr List.mem_cons_self)) b
  radicands arguments argument x hnode hargument := by
    refine (refusal?_radicand_eq_none_iff argument).mp (h _ hnode _ (.inr ?_)) x
    rw [checksAfter, if_pos rfl]
    exact List.mem_map_of_mem hargument

/-- The nodes of a tree are allowed exactly if no check fails. -/
theorem allowed_iff (t : Expr) : Allowed t ↔ ∀ check ∈ t.checks, check.refusal? = none := by
  constructor
  · exact fun h check hcheck => h.refusal?_eq_none hcheck
  · intro h
    refine allowed_of_refusal?_eq_none fun node hnode check hcheck => ?_
    exact h check ((mem_checks_iff t).mpr ⟨node, hnode, hcheck⟩)

end Expr

end Reckoner
