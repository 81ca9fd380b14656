import Calculator.Evaluation

/-!
# Values and faults of single operations

Evaluation goes on from a value only if it is finite. An operation by itself fails with a
domain fault, but for a division by zero and a factorial that is too large.
-/

namespace Calculator

variable {library : Elementary} {mode : AngleMode} {tree : Expression}
  {outcome : Except EvalError Float} {argument value : Float} {error : EvalError}

theorem require_finite_ok (finite : Binary64.isFinite value) :
    tree.requireFinite value = .ok value :=
  if_pos finite

theorem require_finite_error (infinite : ¬Binary64.isFinite value) :
    tree.requireFinite value = .error (.domain (.notFinite tree)) :=
  if_neg infinite

theorem bind_ok {next : Float → Except EvalError Float}
    (settled : outcome >>= next = .ok value) :
    ∃ found, outcome = .ok found ∧ next found = .ok value := by
  cases outcome with
  | error error => cases settled
  | ok found => exact ⟨found, rfl, settled⟩

theorem required_finite (required : tree.requireFinite argument = .ok value) :
    Binary64.isFinite value := by
  by_cases finite : Binary64.isFinite argument
  · rw [require_finite_ok finite] at required
    exact Except.ok.inj required ▸ finite
  · rw [require_finite_error finite] at required
    cases required

theorem settled_finite (settled : outcome >>= tree.requireFinite = .ok value) :
    Binary64.isFinite value := by
  obtain ⟨_, _, required⟩ := bind_ok settled
  exact required_finite required

/-- Every value that is calculated is finite. -/
theorem evaluate_finite (evaluated : tree.evaluate library mode = .ok value) :
    Binary64.isFinite value := by
  cases tree with
  | number | constant => exact required_finite evaluated
  | unary operator operand =>
      obtain ⟨_, _, settled⟩ := bind_ok evaluated
      exact settled_finite settled
  | binary operator left right =>
      obtain ⟨_, _, others⟩ := bind_ok evaluated
      obtain ⟨_, _, settled⟩ := bind_ok others
      exact settled_finite settled
  | call function argument =>
      obtain ⟨_, _, settled⟩ := bind_ok evaluated
      exact settled_finite settled

/-! What an operation by itself can fail with -/

theorem unary_refused {operator : UnaryOperator} (refused : operator.apply value = .error error) :
    (∃ fault, error = .domain fault) ∨ operator = .factorial ∧ error = .overflow := by
  cases operator with
  | negate => cases refused
  | factorial =>
      simp only [UnaryOperator.apply, factorialValue] at refused
      split at refused
      · exact .inl ⟨_, (Except.error.inj refused).symm⟩
      split at refused
      · exact .inl ⟨_, (Except.error.inj refused).symm⟩
      split at refused
      · exact .inr ⟨rfl, (Except.error.inj refused).symm⟩
      · cases refused

theorem binary_refused {operator : BinaryOperator} {left right : Float}
    (refused : operator.apply library left right = .error error) :
    (∃ fault, error = .domain fault) ∨
      operator = .divide ∧ Binary64.isZero right ∧ error = .divisionByZero := by
  cases operator with
  | add | subtract | multiply => cases refused
  | divide =>
      simp only [BinaryOperator.apply] at refused
      split at refused
      · exact .inr ⟨rfl, ‹_›, (Except.error.inj refused).symm⟩
      · cases refused
  | power =>
      simp only [BinaryOperator.apply] at refused
      split at refused
      · exact .inl ⟨_, (Except.error.inj refused).symm⟩
      · cases refused

theorem function_refused {function : Function}
    (refused : function.apply library mode value = .error error) :
    ∃ fault, error = .domain fault := by
  cases function with
  | sin | cos | tan => cases refused
  | log | ln =>
      simp only [Function.apply, Function.logarithm] at refused
      split at refused
      · exact ⟨_, (Except.error.inj refused).symm⟩
      · cases refused
  | sqrt =>
      simp only [Function.apply] at refused
      split at refused
      · exact ⟨_, (Except.error.inj refused).symm⟩
      · cases refused

/-- Demanding a finite value adds nothing but a domain fault. -/
theorem refused_or_domain (failed : outcome >>= tree.requireFinite = .error error) :
    (∃ fault, error = .domain fault) ∨ outcome = .error error := by
  cases outcome with
  | error found => exact .inr failed
  | ok value =>
      have required : tree.requireFinite value = .error error := failed
      by_cases finite : Binary64.isFinite value
      · rw [require_finite_ok finite] at required
        cases required
      · rw [require_finite_error finite] at required
        exact .inl ⟨_, (Except.error.inj required).symm⟩

end Calculator
