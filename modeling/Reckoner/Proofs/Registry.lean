import Mathlib.Data.List.Basic
import Reckoner.Evaluation
import Reckoner.Proofs.Binary64.Bits
import Reckoner.Proofs.Results

/-!
# What the tables allow

Every sign and every operator has its entry, no two functions share a name, and the operation of a
function counts its arguments as the entry does. Of all operations only division and square root
refuse a value.
-/
namespace Reckoner

theorem Registry.sign?_eq (sign : Sign) : sign? sign = some sign.apply := by
  cases sign <;> rfl

theorem Registry.operator?_eq (operator : Operator) : operator? operator = some operator.apply := by
  cases operator <;> rfl

theorem Registry.constant?_eq_none_iff (text : String) :
    constant? text = none ↔ text ∉ constantNames := by
  rw [constant?, Option.map_eq_none_iff, List.find?_eq_none]
  constructor
  · intro h hmem
    obtain ⟨entry, hentry, rfl⟩ := List.mem_map.mp hmem
    exact h entry hentry (decide_eq_true rfl)
  · intro h entry hentry htext
    exact h (List.mem_map.mpr ⟨entry, hentry, of_decide_eq_true htext⟩)

theorem Registry.mem_constantNames_of_constant?_eq_some {text : String} {value : Float}
    (h : constant? text = some value) : text ∈ constantNames := by
  refine Decidable.of_not_not fun hnot => ?_
  rw [(constant?_eq_none_iff text).mpr hnot] at h
  cases h

theorem Registry.function?_eq_none_iff (name : String) :
    function? name = none ↔ name ∉ functionNames := by
  rw [function?, List.find?_eq_none]
  constructor
  · intro h hmem
    obtain ⟨f, hf, rfl⟩ := List.mem_map.mp hmem
    exact h f hf (decide_eq_true rfl)
  · intro h f hf hname
    exact h (List.mem_map.mpr ⟨f, hf, of_decide_eq_true hname⟩)

theorem Registry.mem_of_function?_eq_some {name : String} {f : Function}
    (h : function? name = some f) : f ∈ functions ∧ f.name = name := by
  rw [function?] at h
  exact ⟨List.mem_of_find?_eq_some h, by simpa using List.find?_some h⟩

/-- No two functions share a name. -/
theorem Registry.function?_eq_some_of_mem {f : Function} (h : f ∈ functions) :
    function? f.name = some f := by
  simp only [functions, List.mem_cons, List.not_mem_nil, or_false] at h
  rcases h with rfl | rfl | rfl | rfl | rfl <;> rfl

theorem Operation.unary_of_length_ne (name : String) (compute : Float → Except Fault Float)
    {arguments : List Float} (h : arguments.length ≠ 1) :
    unary name compute arguments = .error (.arity name 1 arguments.length) := by
  match arguments, h with
  | [], _ => rfl
  | [_], h => exact absurd rfl h
  | _ :: _ :: _, _ => rfl

theorem Operation.binary_of_length_ne (name : String)
    (compute : Float → Float → Except Fault Float) {arguments : List Float}
    (h : arguments.length ≠ 2) :
    binary name compute arguments = .error (.arity name 2 arguments.length) := by
  match arguments, h with
  | [], _ => rfl
  | [_], _ => rfl
  | [_, _], h => exact absurd rfl h
  | _ :: _ :: _ :: _, _ => rfl

/-- The operation of an entry counts its arguments as the entry does and gives its fault the name of
the entry. -/
theorem Registry.apply_of_length_ne {f : Function} (h : f ∈ functions) {values : List Float}
    (hlength : values.length ≠ f.arity) :
    f.apply values = .error (.arity f.name f.arity values.length) := by
  simp only [functions, List.mem_cons, List.not_mem_nil, or_false] at h
  rcases h with rfl | rfl | rfl | rfl | rfl
  · exact Operation.unary_of_length_ne _ _ hlength
  · exact Operation.binary_of_length_ne _ _ hlength
  · exact Operation.unary_of_length_ne _ _ hlength
  · exact Operation.unary_of_length_ne _ _ hlength
  · exact Operation.unary_of_length_ne _ _ hlength

/-- With the right number of arguments, every function but the square root has a value. -/
theorem Registry.apply_cases {f : Function} (h : f ∈ functions) {values : List Float}
    (hlength : values.length = f.arity) :
    (f.name = "sqrt" ∧ ∃ x, values = [x] ∧ f.apply values = Operation.squareRoot x) ∨
      f.name ≠ "sqrt" ∧ ∃ value, f.apply values = .ok value := by
  simp only [functions, List.mem_cons, List.not_mem_nil, or_false] at h
  rcases h with rfl | rfl | rfl | rfl | rfl
  · obtain ⟨x, rfl⟩ := List.length_eq_one_iff.mp hlength
    exact .inl ⟨rfl, x, rfl, rfl⟩
  · obtain ⟨a, b, rfl⟩ := List.length_eq_two.mp hlength
    exact .inr ⟨by decide, _, rfl⟩
  · obtain ⟨x, rfl⟩ := List.length_eq_one_iff.mp hlength
    exact .inr ⟨by decide, _, rfl⟩
  · obtain ⟨x, rfl⟩ := List.length_eq_one_iff.mp hlength
    exact .inr ⟨by decide, _, rfl⟩
  · obtain ⟨x, rfl⟩ := List.length_eq_one_iff.mp hlength
    exact .inr ⟨by decide, _, rfl⟩

theorem Registry.eq_negativeRoot_of_apply {f : Function} (h : f ∈ functions) {values : List Float}
    (hlength : values.length = f.arity) {fault : Fault} (hfault : f.apply values = .error fault) :
    fault = .negativeRoot := by
  rcases apply_cases h hlength with ⟨-, x, -, happly⟩ | ⟨-, value, happly⟩
  · rw [happly, Operation.squareRoot] at hfault
    split at hfault
    · cases hfault
      rfl
    · cases hfault
  · rw [happly] at hfault
    cases hfault

/-- Of the operators, only a division is at fault. -/
theorem Operator.eq_divisionByZero_of_apply {operator : Operator} {a b : Float} {fault : Fault}
    (h : operator.apply a b = .error fault) : fault = .divisionByZero := by
  cases operator with
  | div =>
    rw [apply, Operation.divide] at h
    split at h
    · cases h
      rfl
    · cases h
  | _ => cases h

/-- A zero divisor is one of the two zeros. -/
theorem refusal?_divide (a b : Float) :
    refusal? (Fault.refuse (Operation.divide a b)) =
      if b = 0 ∨ b = -0 then some Fault.divisionByZero.toRefusal else none := by
  have hzero : b = 0 ∨ b = -0 ↔ (b == 0) = true := by
    rw [Binary64.beq_zero_iff, Binary64.ordinal_eq_zero_iff]
  rw [Operation.divide]
  by_cases h : (b == 0) = true
  · rw [if_pos h, if_pos (hzero.mpr h)]
    rfl
  · rw [if_neg h, if_neg (mt hzero.mp h)]
    rfl

/-- Square root is the only function that refuses a value. -/
theorem refusal?_apply {f : Function} (h : f ∈ Registry.functions) {values : List Float}
    (hlength : values.length = f.arity) :
    refusal? (Fault.refuse (f.apply values)) =
      if f.name = "sqrt" then
        values.findSome? fun x => if x < 0 then some Fault.negativeRoot.toRefusal else none
      else none := by
  rcases Registry.apply_cases h hlength with ⟨hname, x, rfl, happly⟩ | ⟨hname, value, happly⟩
  · rw [happly, Operation.squareRoot, if_pos hname, List.findSome?_singleton]
    by_cases hx : x < 0
    · rw [if_pos hx, if_pos hx]
      rfl
    · rw [if_neg hx, if_neg hx]
      rfl
  · rw [happly, if_neg hname]
    rfl

end Reckoner
