import Calculator.Proofs.Arithmetic
import Calculator.Proofs.Evaluation

/-!
# Degrees as radians of a converted tree

Calculating in degrees is calculating in radians with every angle of the tree converted in
place. The conversion inside an operation may pass through an infinite number, where the
converted tree stops at its product; no such angle has a finite sine, cosine or tangent, so
both ways fail.
-/

namespace Calculator

namespace EvalError

/-- Both failures are of one kind, whatever they say about it. -/
def Alike : EvalError → EvalError → Prop
  | .divisionByZero, .divisionByZero | .domain _, .domain _ | .overflow, .overflow => True
  | _, _ => False

end EvalError

/-- Two outcomes are the same value, or failures of one kind. -/
inductive SameOutcome : Except EvalError Float → Except EvalError Float → Prop
  | value (value : Float) : SameOutcome (.ok value) (.ok value)
  | failure {first second : EvalError} (alike : first.Alike second) :
      SameOutcome (.error first) (.error second)

/-- An infinite angle has no finite sine, cosine or tangent. -/
def Elementary.NotFiniteAtInfinity (library : Elementary) : Prop :=
  ∀ angle negative, Binary64.view angle = .infinite negative →
    ¬Binary64.isFinite (library.sin angle) ∧ ¬Binary64.isFinite (library.cos angle) ∧
      ¬Binary64.isFinite (library.tan angle)

namespace Expression

/-- The tree of an angle in degrees, as a tree for that angle in radians. -/
def fromDegrees (angle : Expression) : Expression :=
  .binary .divide (.binary .multiply angle (.constant .pi)) (.number 180)

/-- Converts the argument of every function of an angle. -/
def convertAngles : Expression → Expression
  | .number value => .number value
  | .constant named => .constant named
  | .unary operator operand => .unary operator operand.convertAngles
  | .binary operator left right => .binary operator left.convertAngles right.convertAngles
  | .call function argument =>
      if function.takesAngle then .call function argument.convertAngles.fromDegrees
      else .call function argument.convertAngles

/-- Whether a function of an angle occurs. -/
def usesAngle : Expression → Bool
  | .number _ | .constant _ => false
  | .unary _ operand => operand.usesAngle
  | .binary _ left right => left.usesAngle || right.usesAngle
  | .call function argument => function.takesAngle || argument.usesAngle

end Expression

variable {library : Elementary} {mode : AngleMode} {tree angle : Expression}
  {function : Function} {argument value : Float}
  {first second : Except EvalError Float}

/-! Outcomes of the same value or kind -/

theorem EvalError.alike_refl (error : EvalError) : error.Alike error := by
  cases error <;> trivial

theorem same_outcome_refl (outcome : Except EvalError Float) : SameOutcome outcome outcome := by
  cases outcome with
  | error error => exact .failure error.alike_refl
  | ok value => exact .value value

theorem same_outcome_bind {firstNext secondNext : Float → Except EvalError Float}
    (same : SameOutcome first second)
    (next : ∀ value, SameOutcome (firstNext value) (secondNext value)) :
    SameOutcome (first >>= firstNext) (second >>= secondNext) := by
  cases same with
  | value value => exact next value
  | failure alike => exact .failure alike

theorem same_outcome_ok (same : SameOutcome first second) (value : Float) :
    first = .ok value ↔ second = .ok value := by
  cases same <;> simp

theorem same_outcome_error (same : SameOutcome first second) {error : EvalError}
    (failed : first = .error error) :
    ∃ alike, error.Alike alike ∧ second = .error alike := by
  cases same with
  | value value => cases failed
  | failure alike => exact ⟨_, Except.error.inj failed ▸ alike, rfl⟩

theorem require_finite_same (first second : Expression) (value : Float) :
    SameOutcome (first.requireFinite value) (second.requireFinite value) := by
  simp only [Expression.requireFinite]
  split
  · exact .value value
  · exact .failure trivial

/-- One outcome, demanded to be finite at two trees. -/
theorem settled_same (outcome : Except EvalError Float) (first second : Expression) :
    SameOutcome (outcome >>= first.requireFinite) (outcome >>= second.requireFinite) :=
  same_outcome_bind (same_outcome_refl outcome) (require_finite_same first second)

/-! One converted angle -/

theorem pi_evaluate : (Expression.constant .pi).evaluate library mode = .ok Constant.pi.value :=
  require_finite_ok (by decide)

theorem half_turn_evaluate : (Expression.number 180).evaluate library mode = .ok 180 :=
  require_finite_ok (by decide +kernel)

theorem half_turn_divides :
    BinaryOperator.divide.apply library value 180 = .ok (value / 180) := by
  have nonzero : Binary64.isZero 180 = false := by decide +kernel
  simp only [BinaryOperator.apply, nonzero, Bool.false_eq_true, if_false]

/-- The steps of the converted tree are those of the conversion, but the product is
checked before it is divided. -/
theorem converted_evaluate (evaluated : angle.evaluate library mode = .ok argument) :
    angle.fromDegrees.evaluate library mode =
      if Binary64.isFinite (argument * Constant.pi.value) then
        .ok (AngleMode.degrees.toRadians argument)
      else .error (.domain (.notFinite (.binary .multiply angle (.constant .pi)))) := by
  have product : (Expression.binary .multiply angle (.constant .pi)).evaluate library mode =
      Expression.requireFinite (.binary .multiply angle (.constant .pi))
        (argument * Constant.pi.value) := by
    rw [Expression.evaluate, evaluated, pi_evaluate]
    rfl
  rw [Expression.fromDegrees, Expression.evaluate, product, half_turn_evaluate]
  split
  · rename_i finite
    rw [require_finite_ok finite]
    simp only [bind, Except.bind, half_turn_divides]
    exact require_finite_ok (Binary64.quotient_finite finite)
  · rename_i infinite
    rw [require_finite_error infinite]
    rfl

theorem converted_error {error : EvalError}
    (failed : angle.evaluate library mode = .error error) :
    angle.fromDegrees.evaluate library mode = .error error := by
  have stopped : (Expression.binary .multiply angle (.constant .pi)).evaluate library mode =
      .error error := by
    rw [Expression.evaluate, failed]
    rfl
  rw [Expression.fromDegrees, Expression.evaluate, stopped]
  rfl

/-- A function of an angle fails where the conversion of its angle leaves the finite
numbers. -/
theorem converted_infinite (unbounded : library.NotFiniteAtInfinity)
    (finite : Binary64.isFinite argument)
    (infinite : ¬Binary64.isFinite (argument * Constant.pi.value))
    (takes : function.takesAngle) :
    ∃ value, function.apply library .degrees argument = .ok value ∧ ¬Binary64.isFinite value := by
  obtain product | ⟨negative, product⟩ :=
    Binary64.product_kind finite (by decide : Binary64.isFinite Constant.pi.value)
  · exact absurd product infinite
  · obtain ⟨sign, quotient⟩ := Binary64.quotient_infinite product
    obtain ⟨sine, cosine, tangent⟩ := unbounded _ _ quotient
    cases function with
    | sin => exact ⟨_, rfl, sine⟩
    | cos => exact ⟨_, rfl, cosine⟩
    | tan => exact ⟨_, rfl, tangent⟩
    | log | ln | sqrt => cases takes

theorem apply_in_radians (takes : function.takesAngle) :
    function.apply library .degrees argument =
      function.apply library .radians (AngleMode.degrees.toRadians argument) := by
  cases function <;> first | rfl | cases takes

/-- A function of something else than an angle is the same in every mode. -/
theorem apply_any_mode (without : ¬function.takesAngle) (mode : AngleMode) :
    function.apply library mode argument = function.apply library .radians argument := by
  cases function <;> first | rfl | exact absurd rfl without

theorem angle_call_same (unbounded : library.NotFiniteAtInfinity)
    (takes : function.takesAngle) {converted : Expression}
    (same : SameOutcome (angle.evaluate library .degrees) (converted.evaluate library .radians)) :
    SameOutcome ((Expression.call function angle).evaluate library .degrees)
      ((Expression.call function converted.fromDegrees).evaluate library .radians) := by
  simp only [Expression.evaluate]
  cases given : angle.evaluate library .degrees with
  | error error =>
      obtain ⟨other, alike, failed⟩ := same_outcome_error same given
      rw [converted_error failed]
      exact .failure alike
  | ok argument =>
      rw [converted_evaluate ((same_outcome_ok same argument).mp given)]
      split
      · simp only [bind, Except.bind, apply_in_radians takes]
        exact settled_same ..
      · rename_i infinite
        obtain ⟨value, applied, outside⟩ :=
          converted_infinite unbounded (evaluate_finite given) infinite takes
        simp only [bind, Except.bind, applied, require_finite_error outside]
        exact .failure trivial

/-- Every step of the two calculations has the same outcome. -/
theorem convert_angles_same (unbounded : library.NotFiniteAtInfinity) (tree : Expression) :
    SameOutcome (tree.evaluate library .degrees)
      (tree.convertAngles.evaluate library .radians) := by
  induction tree with
  | number value => exact same_outcome_refl _
  | constant named => exact same_outcome_refl _
  | unary operator operand ih => exact same_outcome_bind ih fun value => settled_same ..
  | binary operator left right leftSame rightSame =>
      apply same_outcome_bind leftSame
      intro leftValue
      exact same_outcome_bind rightSame fun rightValue => settled_same ..
  | call function argument ih =>
      by_cases takes : function.takesAngle
      · rw [Expression.convertAngles, if_pos takes]
        exact angle_call_same unbounded takes ih
      · rw [Expression.convertAngles, if_neg takes]
        apply same_outcome_bind ih
        intro value
        rw [apply_any_mode takes .degrees]
        exact settled_same ..

/-- A tree without angles has the same outcome in every mode. -/
theorem evaluate_any_mode (without : ¬tree.usesAngle) (mode : AngleMode) :
    tree.evaluate library mode = tree.evaluate library .radians := by
  induction tree with
  | number | constant => rfl
  | unary operator operand ih => simp_all [Expression.usesAngle, Expression.evaluate]
  | binary operator left right leftSame rightSame =>
      simp_all [Expression.usesAngle, Expression.evaluate]
  | call function argument ih =>
      simp only [Expression.usesAngle, Bool.or_eq_true, not_or] at without
      simp only [Expression.evaluate, ih without.2, apply_any_mode without.1 mode]

/-- A tree comes to a value in degrees exactly if its converted tree comes to that value in
radians, and failures are of the same kind. Without angles even the failures agree. -/
theorem degrees_are_converted_radians (unbounded : library.NotFiniteAtInfinity)
    (tree : Expression) :
    (∀ value, tree.evaluate library .degrees = .ok value ↔
      tree.convertAngles.evaluate library .radians = .ok value) ∧
    (∀ error, tree.evaluate library .degrees = .error error → ∃ alike, error.Alike alike ∧
      tree.convertAngles.evaluate library .radians = .error alike) ∧
    (¬tree.usesAngle → tree.evaluate library .degrees = tree.evaluate library .radians) := by
  have same := convert_angles_same unbounded tree
  exact ⟨same_outcome_ok same, fun _ => same_outcome_error same,
    fun without => evaluate_any_mode without .degrees⟩

/-- A library that knows its functions of angles at zero only. -/
def Elementary.atZero : Elementary where
  sin angle := if Binary64.isZero angle then angle else Float.ofBits 0x7ff8000000000000
  cos angle := if Binary64.isZero angle then 1 else Float.ofBits 0x7ff8000000000000
  tan angle := if Binary64.isZero angle then angle else Float.ofBits 0x7ff8000000000000
  log _ := Float.ofBits 0x7ff8000000000000
  ln _ := Float.ofBits 0x7ff8000000000000
  power _ _ := Float.ofBits 0x7ff8000000000000

/-- The argument of the inner function is converted once, its result once more. -/
theorem degrees_are_converted_radians_nested :
    Elementary.atZero.NotFiniteAtInfinity ∧
      (Expression.call .cos (.call .sin (.number 0))).convertAngles =
        .call .cos (.binary .divide (.binary .multiply (.call .sin (.binary .divide
          (.binary .multiply (.number 0) (.constant .pi)) (.number 180))) (.constant .pi))
          (.number 180)) ∧
      (Expression.call .cos (.call .sin (.number 0))).convertAngles.evaluate
        .atZero .radians = .ok 1 := by
  have unbounded : Elementary.atZero.NotFiniteAtInfinity := by
    intro angle negative infinite
    have nonzero : Binary64.isZero angle = false := by simp [Binary64.isZero, infinite]
    simp only [Elementary.atZero, nonzero, Bool.false_eq_true, if_false]
    decide
  have evaluated : (Expression.call .cos (.call .sin (.number 0))).evaluate
      .atZero .degrees = .ok 1 := by
    decide +kernel
  exact ⟨unbounded, rfl, ((degrees_are_converted_radians unbounded _).1 1).mp evaluated⟩

end Calculator
