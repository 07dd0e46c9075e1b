import Reckoner.Proofs.Expr.Checks

/-!
# The first fault of a tree

The refusal of an evaluation is that of the first check of the tree that fails. No check is skipped:
if none fails there is a value.
-/
namespace Reckoner

namespace Expr

theorem findSome?_listChecks {ts : List Expr}
    (h : ∀ t ∈ ts, t.checks.findSome? Check.refusal? = refusal? t.evaluate) :
    (ts.flatMap checks).findSome? Check.refusal? = refusal? (evaluateAll ts) := by
  induction ts with
  | nil => rfl
  | cons first rest ih =>
    rw [List.forall_mem_cons] at h
    rw [List.flatMap_cons, List.findSome?_append, h.1, ih h.2, evaluateAll]
    cases first.evaluate with
    | error refusal => rfl
    | ok value => cases evaluateAll rest <;> rfl

/-- The radicands of a square root are checked as its values are. -/
theorem findSome?_radicand {ts : List Expr} {values : List Float}
    (h : evaluateAll ts = .ok values) :
    (ts.map Check.radicand).findSome? Check.refusal? =
      values.findSome? fun x => if x < 0 then some Fault.negativeRoot.toRefusal else none := by
  induction ts generalizing values with
  | nil =>
    cases h
    rfl
  | cons first rest ih =>
    rw [evaluateAll] at h
    obtain ⟨value, hvalue, h⟩ := Except.bind_eq_ok.mp h
    obtain ⟨others, hothers, h⟩ := Except.bind_eq_ok.mp h
    cases h
    rw [List.map_cons, List.findSome?_cons, List.findSome?_cons, ih hothers, Check.refusal?, hvalue]

theorem evaluateAll_length {ts : List Expr} {values : List Float}
    (h : evaluateAll ts = .ok values) : values.length = ts.length := by
  induction ts generalizing values with
  | nil =>
    cases h
    rfl
  | cons first rest ih =>
    rw [evaluateAll] at h
    obtain ⟨value, hvalue, h⟩ := Except.bind_eq_ok.mp h
    obtain ⟨others, hothers, h⟩ := Except.bind_eq_ok.mp h
    cases h
    rw [List.length_cons, List.length_cons, ih hothers]

theorem evaluate_call_of_unknown {function : String} (h : Registry.function? function = none)
    (arguments : List Expr) :
    (call function arguments).evaluate = .error (.unknownFunction function) := by
  rw [evaluate, h]

theorem evaluate_call {function : String} {f : Function}
    (h : Registry.function? function = some f) (arguments : List Expr) :
    (call function arguments).evaluate =
      if arguments.length = f.arity then
        (evaluateAll arguments).bind fun values => Fault.refuse (f.apply values)
      else .error (Fault.arity f.name f.arity arguments.length).toRefusal := by
  rw [evaluate, h]
  rfl

/-- A call is checked before its arguments for its name and their number, and after them for a
negative radicand. -/
theorem findSome?_call {function : String} {arguments : List Expr}
    (ih : (arguments.flatMap checks).findSome? Check.refusal? = refusal? (evaluateAll arguments)) :
    (call function arguments).checks.findSome? Check.refusal? =
      refusal? (call function arguments).evaluate := by
  rw [checks_eq, List.findSome?_append, List.findSome?_append, children, ih, checksBefore,
    checksAfter]
  cases hf : Registry.function? function with
  | none =>
    have hname := (Registry.function?_eq_none_iff function).mp hf
    rw [evaluate_call_of_unknown hf, List.findSome?_cons, Check.refusal?, if_neg hname]
    rfl
  | some f =>
    obtain ⟨hmem, rfl⟩ := Registry.mem_of_function?_eq_some hf
    have hname : f.name ∈ Registry.functionNames := List.mem_map_of_mem hmem
    have hknown : Check.refusal? (.function f.name) = none := if_pos hname
    rw [evaluate_call hf, List.findSome?_cons, hknown, List.findSome?_singleton, Check.refusal?, hf]
    by_cases harity : arguments.length = f.arity
    · simp only [if_pos harity, Option.none_or]
      cases hvalues : evaluateAll arguments with
      | error refusal => rfl
      | ok values =>
        have happly := refusal?_apply hmem ((evaluateAll_length hvalues).trans harity)
        show Option.or none _ = refusal? (Fault.refuse (f.apply values))
        rw [happly, Option.none_or]
        by_cases hsqrt : f.name = "sqrt"
        · rw [if_pos hsqrt, if_pos hsqrt, findSome?_radicand hvalues]
        · rw [if_neg hsqrt, if_neg hsqrt]
          rfl
    · simp only [if_neg harity]
      rfl

theorem evaluate_signed (sign : Sign) (operand : Expr) :
    (signed sign operand).evaluate = operand.evaluate.map sign.apply := by
  rw [evaluate, Registry.sign?_eq]
  show operand.evaluate.bind _ = _
  cases operand.evaluate <;> rfl

theorem evaluate_binary (operator : Operator) (left right : Expr) :
    (binary operator left right).evaluate =
      left.evaluate.bind fun a => right.evaluate.bind fun b =>
        Fault.refuse (operator.apply a b) := by
  rw [evaluate, Registry.operator?_eq]
  rfl

theorem findSome?_binary {operator : Operator} {left right : Expr}
    (hl : left.checks.findSome? Check.refusal? = refusal? left.evaluate)
    (hr : right.checks.findSome? Check.refusal? = refusal? right.evaluate) :
    (binary operator left right).checks.findSome? Check.refusal? =
      refusal? (binary operator left right).evaluate := by
  have hbefore : (binary operator left right).checksBefore = [] := rfl
  rw [checks, hbefore, List.nil_append, List.findSome?_append, List.findSome?_append, hl, hr,
    evaluate_binary]
  cases left.evaluate with
  | error refusal => rfl
  | ok a =>
    cases hright : right.evaluate with
    | error refusal => rfl
    | ok b =>
      show List.findSome? Check.refusal? (checksAfter _) =
        refusal? (Fault.refuse (operator.apply a b))
      cases operator with
      | div =>
        show List.findSome? Check.refusal? [Check.divisor right] =
          refusal? (Fault.refuse (Operation.divide a b))
        rw [refusal?_divide, List.findSome?_singleton, Check.refusal?, hright]
      | _ => rfl

/-- The refusal of a tree is that of the first of its checks that fails. -/
theorem findSome?_checks (t : Expr) :
    t.checks.findSome? Check.refusal? = refusal? t.evaluate := by
  induction t using induction_children with
  | h t ih =>
    cases t with
    | number value => rfl
    | name text =>
      rw [evaluate]
      show List.findSome? Check.refusal? [Check.name text] = _
      rw [List.findSome?_singleton, Check.refusal?]
      cases htext : Registry.constant? text with
      | none =>
        rw [if_neg ((Registry.constant?_eq_none_iff text).mp htext)]
        rfl
      | some value =>
        rw [if_pos (Registry.mem_constantNames_of_constant?_eq_some htext)]
        rfl
    | signed sign operand =>
      have hbefore : (signed sign operand).checksBefore = [] := rfl
      have hafter : (signed sign operand).checksAfter = [] := rfl
      rw [checks, hbefore, hafter, List.nil_append, List.append_nil, ih operand List.mem_cons_self,
        evaluate_signed]
      cases operand.evaluate <;> rfl
    | binary operator left right =>
      exact findSome?_binary (ih left List.mem_cons_self)
        (ih right (List.mem_cons_of_mem _ List.mem_cons_self))
    | call function arguments => exact findSome?_call (findSome?_listChecks ih)

theorem evaluate_eq_error_iff (t : Expr) (refusal : Refusal) :
    t.evaluate = .error refusal ↔ t.checks.findSome? Check.refusal? = some refusal := by
  rw [findSome?_checks, refusal?_eq_some_iff]

theorem exists_evaluate_eq_ok_iff (t : Expr) :
    (∃ value, t.evaluate = .ok value) ↔ ∀ check ∈ t.checks, check.refusal? = none := by
  rw [← List.findSome?_eq_none_iff, findSome?_checks, refusal?_eq_none_iff]

/-- A tree has a value exactly if each of its nodes is allowed. Otherwise its refusal is that of
the first check that fails, and it is a name, a function or an operation that is refused. -/
theorem evaluate_reports_first_fault (t : Expr) :
    ((∃ value, t.evaluate = .ok value) ↔ Allowed t) ∧
    (∀ refusal, t.evaluate = .error refusal ↔
      t.checks.findSome? Check.refusal? = some refusal) ∧
    (∀ refusal, t.evaluate = .error refusal →
      (∃ text, refusal = .unknownName text) ∨ (∃ name, refusal = .unknownFunction name) ∨
        ∃ detail, refusal = .invalidOperation detail) := by
  refine ⟨(exists_evaluate_eq_ok_iff t).trans (allowed_iff t).symm, evaluate_eq_error_iff t,
    fun refusal h => ?_⟩
  have hfirst := (evaluate_eq_error_iff t refusal).mp h
  obtain ⟨check, -, hcheck⟩ := List.exists_of_findSome?_eq_some hfirst
  exact Check.kind_of_refusal? hcheck

end Expr

end Reckoner
