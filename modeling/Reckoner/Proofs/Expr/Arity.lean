import Mathlib.Data.List.Forall2
import Reckoner.Proofs.Expr.Faults

/-!
# The number of arguments is counted twice

A call is checked against the number in the table before its arguments are evaluated, and the
operation of the table counts their values again when it is applied. The two checks refuse the same
numbers with the same text. As the first one comes earlier, no evaluation meets the fault of the
second.
-/
namespace Reckoner

/-- The fault is a wrong number of arguments. -/
def Fault.IsArity (fault : Fault) : Prop :=
  ∃ name expected received, fault = .arity name expected received

theorem Registry.not_isArity_of_apply {f : Function} (hf : f ∈ functions) {values : List Float}
    (hlength : values.length = f.arity) {fault : Fault} (happly : f.apply values = .error fault) :
    ¬ fault.IsArity := by
  rw [eq_negativeRoot_of_apply hf hlength happly]
  exact nofun

theorem Operator.not_isArity_of_apply {operator : Operator} {a b : Float} {fault : Fault}
    (h : operator.apply a b = .error fault) : ¬ fault.IsArity := by
  rw [eq_divisionByZero_of_apply h]
  exact nofun

/-- An operation finds a wrong number of arguments exactly if the table does. -/
theorem Registry.exists_isArity_iff {f : Function} (hf : f ∈ functions) (values : List Float) :
    (∃ fault, f.apply values = .error fault ∧ fault.IsArity) ↔ values.length ≠ f.arity := by
  constructor
  · rintro ⟨fault, happly, hfault⟩ hlength
    exact not_isArity_of_apply hf hlength happly hfault
  · intro hlength
    exact ⟨_, apply_of_length_ne hf hlength, _, _, _, rfl⟩

namespace Expr

theorem evaluateAll_eq_ok_iff {ts : List Expr} {values : List Float} :
    evaluateAll ts = .ok values ↔
      List.Forall₂ (fun t value => evaluate t = .ok value) ts values := by
  induction ts generalizing values with
  | nil =>
    rw [evaluateAll, List.forall₂_nil_left_iff, Except.ok.injEq]
    exact eq_comm
  | cons first rest ih =>
    rw [evaluateAll, List.forall₂_cons_left_iff]
    constructor
    · intro h
      obtain ⟨value, hvalue, h⟩ := Except.bind_eq_ok.mp h
      obtain ⟨others, hothers, h⟩ := Except.bind_eq_ok.mp h
      cases h
      exact ⟨value, others, hvalue, ih.mp hothers, rfl⟩
    · rintro ⟨value, others, hvalue, hothers, rfl⟩
      refine Except.bind_eq_ok.mpr ⟨value, hvalue, ?_⟩
      exact Except.bind_eq_ok.mpr ⟨others, ih.mpr hothers, rfl⟩

/-- Of arguments that all have values, a call gives what its operation gives for these values,
whether their number is right or not. -/
theorem evaluate_call_of_values {f : Function} (hf : f ∈ Registry.functions)
    {arguments : List Expr} {values : List Float} (h : evaluateAll arguments = .ok values) :
    (call f.name arguments).evaluate = Fault.refuse (f.apply values) := by
  have hlength : values.length = arguments.length := evaluateAll_length h
  rw [evaluate_call (Registry.function?_eq_some_of_mem hf)]
  by_cases harity : arguments.length = f.arity
  · rw [if_pos harity, h]
    rfl
  · rw [if_neg harity, Registry.apply_of_length_ne hf (hlength ▸ harity), hlength]
    rfl

/-- Why an evaluation gives no value: the tree is refused where it stands, or one of its operations
is at fault. -/
inductive Cause where
  | refused (refusal : Refusal)
  | faulty (fault : Fault)

/-- A fault is converted into a refusal. -/
def Cause.refusal : Cause → Refusal
  | refused refusal => refusal
  | faulty fault => fault.toRefusal

mutual

/-- The evaluation of a tree, with the faults of its operations not yet converted. -/
def attempt : Expr → Except Cause Float
  | number value => .ok value
  | name text =>
    match Registry.constant? text with
    | some value => .ok value
    | none => .error (.refused (.unknownName text))
  | signed sign operand =>
    match Registry.sign? sign with
    | some f => do return f (← operand.attempt)
    | none => .error (.refused (.forbidden ("opérateur unaire " ++ sign.symbol)))
  | binary operator left right =>
    match Registry.operator? operator with
    | some f => do
      let a ← left.attempt
      let b ← right.attempt
      (f a b).mapError .faulty
    | none => .error (.refused (.forbidden ("opérateur " ++ operator.symbol)))
  | call function arguments =>
    match Registry.function? function with
    | none => .error (.refused (.unknownFunction function))
    | some f =>
      if arguments.length = f.arity then do
        (f.apply (← attemptAll arguments)).mapError .faulty
      else
        .error (.refused (.invalidOperation
          s!"{f.name} attend {f.arity} argument(s), {arguments.length} reçu(s)"))

def attemptAll : List Expr → Except Cause (List Float)
  | [] => .ok []
  | first :: rest => do
    let value ← first.attempt
    return value :: (← attemptAll rest)

end

theorem attempt_signed (sign : Sign) (operand : Expr) :
    (signed sign operand).attempt = operand.attempt.map sign.apply := by
  rw [attempt, Registry.sign?_eq]
  show operand.attempt.bind _ = _
  cases operand.attempt <;> rfl

theorem attempt_binary (operator : Operator) (left right : Expr) :
    (binary operator left right).attempt =
      left.attempt.bind fun a => right.attempt.bind fun b =>
        (operator.apply a b).mapError .faulty := by
  rw [attempt, Registry.operator?_eq]
  rfl

theorem attempt_call {function : String} {f : Function}
    (h : Registry.function? function = some f) (arguments : List Expr) :
    (call function arguments).attempt =
      if arguments.length = f.arity then
        (attemptAll arguments).bind fun values => (f.apply values).mapError .faulty
      else .error (.refused (Fault.arity f.name f.arity arguments.length).toRefusal) := by
  rw [attempt, h]
  rfl

theorem mapError_faulty {α : Type} (result : Except Fault α) :
    (result.mapError Cause.faulty).mapError Cause.refusal = Fault.refuse result := by
  cases result <;> rfl

theorem mapError_attemptAll {ts : List Expr}
    (h : ∀ t ∈ ts, t.attempt.mapError Cause.refusal = t.evaluate) :
    (attemptAll ts).mapError Cause.refusal = evaluateAll ts := by
  induction ts with
  | nil => rfl
  | cons first rest ih =>
    rw [List.forall_mem_cons] at h
    rw [evaluateAll, attemptAll, ← h.1, ← ih h.2]
    cases first.attempt with
    | error cause => rfl
    | ok value => cases attemptAll rest <;> rfl

/-- An evaluation is its attempt with the fault, if there is one, converted. -/
theorem mapError_attempt (t : Expr) : t.attempt.mapError Cause.refusal = t.evaluate := by
  induction t using induction_children with
  | h t ih =>
    cases t with
    | number value => rfl
    | name text =>
      rw [evaluate, attempt]
      cases Registry.constant? text <;> simp only [Except.mapError, Cause.refusal]
    | signed sign operand =>
      rw [evaluate_signed, attempt_signed, ← ih operand List.mem_cons_self]
      cases operand.attempt <;> rfl
    | binary operator left right =>
      have hl := ih left List.mem_cons_self
      have hr := ih right (List.mem_cons_of_mem _ List.mem_cons_self)
      simp only [attempt_binary, evaluate_binary, Except.mapError_bind, mapError_faulty, hl, hr]
    | call function arguments =>
      have hvalues : (attemptAll arguments).mapError Cause.refusal = evaluateAll arguments :=
        mapError_attemptAll ih
      cases hf : Registry.function? function with
      | none =>
        rw [evaluate_call_of_unknown hf, attempt, hf]
        rfl
      | some f =>
        rw [evaluate_call hf, attempt_call hf]
        by_cases harity : arguments.length = f.arity
        · simp only [if_pos harity, Except.mapError_bind, mapError_faulty, hvalues]
        · rw [if_neg harity, if_neg harity]
          rfl

theorem length_of_attemptAll {ts : List Expr} {values : List Float}
    (h : attemptAll ts = .ok values) : values.length = ts.length := by
  refine evaluateAll_length ?_
  rw [← mapError_attemptAll fun t _ => mapError_attempt t, h]
  rfl

theorem eq_error_of_mapError_faulty {α : Type} {result : Except Fault α} {fault : Fault}
    (h : result.mapError Cause.faulty = .error (.faulty fault)) : result = .error fault := by
  cases result with
  | error other =>
    cases h
    rfl
  | ok value => cases h

theorem not_isArity_of_attemptAll {ts : List Expr} {fault : Fault}
    (ih : ∀ t ∈ ts, t.attempt = .error (.faulty fault) → ¬ fault.IsArity)
    (h : attemptAll ts = .error (.faulty fault)) : ¬ fault.IsArity := by
  induction ts with
  | nil => cases h
  | cons first rest ihrest =>
    rw [List.forall_mem_cons] at ih
    rw [attemptAll] at h
    obtain h | ⟨value, -, h⟩ := Except.bind_eq_error.mp h
    · exact ih.1 h
    · obtain h | ⟨others, -, h⟩ := Except.bind_eq_error.mp h
      · exact ihrest ih.2 h
      · cases h

/-- No evaluation converts a wrong number of arguments: the first check lets only as many of them
through to an operation as it expects. -/
theorem not_isArity_of_attempt (t : Expr) {fault : Fault}
    (h : t.attempt = .error (.faulty fault)) : ¬ fault.IsArity := by
  induction t using induction_children with
  | h t ih =>
    cases t with
    | number value => cases h
    | name text =>
      rw [attempt] at h
      split at h <;> cases h
    | signed sign operand =>
      refine ih operand List.mem_cons_self ?_
      rw [attempt_signed] at h
      cases hoperand : operand.attempt with
      | error cause =>
        rw [hoperand] at h
        exact h
      | ok x =>
        rw [hoperand] at h
        cases h
    | binary operator left right =>
      rw [attempt_binary] at h
      obtain h | ⟨a, -, h⟩ := Except.bind_eq_error.mp h
      · exact ih left List.mem_cons_self h
      · obtain h | ⟨b, -, h⟩ := Except.bind_eq_error.mp h
        · exact ih right (List.mem_cons_of_mem _ List.mem_cons_self) h
        · exact Operator.not_isArity_of_apply (eq_error_of_mapError_faulty h)
    | call function arguments =>
      cases hf : Registry.function? function with
      | none =>
        rw [attempt, hf] at h
        cases h
      | some f =>
        rw [attempt_call hf] at h
        split at h
        · next harity =>
          obtain h | ⟨values, hvalues, h⟩ := Except.bind_eq_error.mp h
          · exact not_isArity_of_attemptAll ih h
          · exact Registry.not_isArity_of_apply (Registry.mem_of_function?_eq_some hf).1
              ((length_of_attemptAll hvalues).trans harity) (eq_error_of_mapError_faulty h)
        · cases h

/-- The number of arguments is checked in two places. An operation of the table is at fault for it
exactly if the table expects another number, and its fault tells the name and the number of the
table and how many arguments there are. So a call of arguments that have values gives what its
operation gives for them, and where their number is wrong the texts are the same. And the fault of
the operation is never met: no evaluation has one to convert. -/
theorem arity_checks_agree :
    (∀ f ∈ Registry.functions,
      (∀ values : List Float,
        ((∃ fault, f.apply values = .error fault ∧ fault.IsArity) ↔ values.length ≠ f.arity) ∧
        ∀ fault, f.apply values = .error fault → fault.IsArity →
          fault = .arity f.name f.arity values.length) ∧
      ∀ arguments values,
        List.Forall₂ (fun t value => evaluate t = .ok value) arguments values →
        (call f.name arguments).evaluate = Fault.refuse (f.apply values) ∧
        (arguments.length ≠ f.arity →
          (call f.name arguments).evaluate = .error (.invalidOperation
            s!"{f.name} attend {f.arity} argument(s), {arguments.length} reçu(s)"))) ∧
    ∀ t : Expr, t.attempt.mapError Cause.refusal = t.evaluate ∧
      ∀ fault, t.attempt = .error (.faulty fault) → ¬ fault.IsArity := by
  refine ⟨fun f hf => ⟨fun values => ⟨Registry.exists_isArity_iff hf values, ?_⟩, ?_⟩,
    fun t => ⟨mapError_attempt t, fun fault => not_isArity_of_attempt t⟩⟩
  · intro fault happly hfault
    have hlength : values.length ≠ f.arity :=
      (Registry.exists_isArity_iff hf values).mp ⟨fault, happly, hfault⟩
    rw [Registry.apply_of_length_ne hf hlength] at happly
    cases happly
    rfl
  · intro arguments values hvalues
    refine ⟨evaluate_call_of_values hf (evaluateAll_eq_ok_iff.mpr hvalues), fun harity => ?_⟩
    rw [evaluate_call (Registry.function?_eq_some_of_mem hf), if_neg harity]
    rfl

/-- The power of one number is refused for the number of its arguments; the power of a number and a
quotient by zero is refused for the quotient. -/
theorem arity_checks_agree_on_power :
    ∃ f ∈ Registry.functions,
      List.Forall₂ (fun t value => evaluate t = .ok value) [name "e"] [2.718281828459045] ∧
      [name "e"].length ≠ f.arity ∧
      (∃ fault, f.apply [2.718281828459045] = .error fault ∧ fault.IsArity ∧
        fault = .arity "power" 2 1) ∧
      (call "power" [name "e"]).evaluate = Fault.refuse (f.apply [2.718281828459045]) ∧
      (call "power" [name "e"]).evaluate =
        .error (.invalidOperation "power attend 2 argument(s), 1 reçu(s)") ∧
      (call "power" [name "e", binary .div (number 1) (number 0)]).attempt =
        .error (.faulty .divisionByZero) ∧
      ¬ Fault.divisionByZero.IsArity := by
  have hpower : ⟨"power", 2, Operation.binary "power" Operator.pow.apply⟩ ∈ Registry.functions :=
    List.mem_cons_of_mem _ List.mem_cons_self
  have hvalues : List.Forall₂ (fun t value => evaluate t = .ok value) [name "e"]
      [2.718281828459045] := .cons rfl .nil
  have hattempt : (call "power" [name "e", binary .div (number 1) (number 0)]).attempt =
      .error (.faulty .divisionByZero) := rfl
  obtain ⟨hchecks, hcall⟩ := arity_checks_agree.1 _ hpower
  obtain ⟨hiff, hreport⟩ := hchecks [2.718281828459045]
  obtain ⟨heq, htext⟩ := hcall _ _ hvalues
  obtain ⟨fault, happly, hfault⟩ := hiff.mpr (by decide)
  exact ⟨_, hpower, hvalues, by decide, ⟨fault, happly, hfault, hreport fault happly hfault⟩, heq,
    htext (by decide), hattempt, (arity_checks_agree.2 _).2 _ hattempt⟩

end Expr

end Reckoner
