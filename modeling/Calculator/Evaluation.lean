import Calculator.Angle
import Calculator.Expression
import Calculator.Whole

/-!
The value of an expression. Operands are evaluated before their operation, the left
one first, and every value on the way must be finite; the first failure is the
outcome. The elementary functions are a parameter, because the arithmetic of doubles
does not determine their last digits.
-/

namespace Calculator

/-- The functions of an arithmetic library. Angles are in radians. -/
structure Elementary where
  sin : Float → Float
  cos : Float → Float
  tan : Float → Float
  log : Float → Float
  ln : Float → Float
  power : Float → Float → Float

/-- The functions of the platform. -/
def Elementary.native : Elementary where
  sin := Float.sin
  cos := Float.cos
  tan := Float.tan
  log := Float.log10
  ln := Float.log
  power := Float.pow

/-- An operand outside the domain of its operation, or a value that is not finite. -/
inductive DomainFault
  | negativeFactorial (operand : Float)
  | fractionalFactorial (operand : Float)
  | negativeRoot (argument : Float)
  | nonPositiveLogarithm (function : Function) (argument : Float)
  | notReal (base exponent : Float)
  | notFinite (tree : Expression)
deriving DecidableEq, Repr

def DomainFault.details : DomainFault → String
  | .negativeFactorial operand => s!"factorial of negative number {Numeral.plain operand}"
  | .fractionalFactorial operand => s!"factorial of non-integer {Numeral.plain operand}"
  | .negativeRoot argument => s!"sqrt of negative number {Numeral.plain argument}"
  | .nonPositiveLogarithm function argument =>
      s!"{function.name} of non-positive number {Numeral.plain argument}"
  | .notReal base exponent =>
      s!"{Numeral.plain base} ^ {Numeral.plain exponent} is not a real number"
  | .notFinite tree => s!"{tree.text} has no finite value"

inductive EvalError
  | divisionByZero
  | domain (fault : DomainFault)
  | overflow
deriving DecidableEq, Repr

def EvalError.message : EvalError → String
  | .divisionByZero => "Division by zero."
  | .domain fault => s!"Domain error: {fault.details}."
  | .overflow => "Integer overflow while trying to compute result."

/-- The factorial of a value that is a whole number within tolerance, as long as the
exact product fits a signed word. -/
def factorialValue (operand : Float) : Except EvalError Float :=
  if Binary64.isBelowZero operand then .error (.domain (.negativeFactorial operand))
  else match Whole.near? operand with
    | none => .error (.domain (.fractionalFactorial operand))
    | some whole =>
        match (Whole.natural? whole).bind Whole.factorial? with
        | none => .error .overflow
        | some product => .ok (Binary64.nearest product 1)

namespace UnaryOperator

def apply : UnaryOperator → Float → Except EvalError Float
  | .negate, operand => .ok (Binary64.negate operand)
  | .factorial, operand => factorialValue operand

end UnaryOperator

namespace BinaryOperator

/-- Sums, differences and products may leave the finite numbers; that is noticed
where the value is used. -/
def apply (library : Elementary) : BinaryOperator → Float → Float → Except EvalError Float
  | .add, left, right => .ok (left + right)
  | .subtract, left, right => .ok (left - right)
  | .multiply, left, right => .ok (left * right)
  | .divide, left, right =>
      if Binary64.isZero right then .error .divisionByZero else .ok (left / right)
  | .power, base, exponent =>
      let value := library.power base exponent
      if Binary64.isUndefined value then .error (.domain (.notReal base exponent))
      else .ok value

end BinaryOperator

namespace Function

/-- Passes a positive argument on to a logarithm; an undefined one passes as well. -/
def logarithm (function : Function) (compute : Float → Float) (argument : Float) :
    Except EvalError Float :=
  if Binary64.isZero argument || Binary64.isBelowZero argument then
    .error (.domain (.nonPositiveLogarithm function argument))
  else .ok (compute argument)

def apply (library : Elementary) (mode : AngleMode) (function : Function)
    (argument : Float) : Except EvalError Float :=
  match function with
  | .sin => .ok (library.sin (mode.toRadians argument))
  | .cos => .ok (library.cos (mode.toRadians argument))
  | .tan => .ok (library.tan (mode.toRadians argument))
  | .log => logarithm .log library.log argument
  | .ln => logarithm .ln library.ln argument
  | .sqrt =>
      if Binary64.isBelowZero argument then .error (.domain (.negativeRoot argument))
      else .ok argument.sqrt

end Function

namespace Expression

def requireFinite (tree : Expression) (value : Float) : Except EvalError Float :=
  if Binary64.isFinite value then .ok value else .error (.domain (.notFinite tree))

def evaluate (library : Elementary) (mode : AngleMode) : Expression → Except EvalError Float
  | .number value => requireFinite (.number value) value
  | .constant named => requireFinite (.constant named) named.value
  | .unary operator operand => do
      let operandValue ← operand.evaluate library mode
      let value ← operator.apply operandValue
      requireFinite (.unary operator operand) value
  | .binary operator left right => do
      let leftValue ← left.evaluate library mode
      let rightValue ← right.evaluate library mode
      let value ← operator.apply library leftValue rightValue
      requireFinite (.binary operator left right) value
  | .call function argument => do
      let argumentValue ← argument.evaluate library mode
      let value ← function.apply library mode argumentValue
      requireFinite (.call function argument) value

end Expression

end Calculator
