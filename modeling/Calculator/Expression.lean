import Calculator.Name
import Calculator.Numeral

/-!
Expression trees. Parentheses leave no trace in a tree; its text puts them back
around every operation, so the text shows exactly how the tree is grouped.
-/

namespace Calculator

inductive UnaryOperator
  | negate
  | factorial
deriving DecidableEq, Repr

inductive BinaryOperator
  | add
  | subtract
  | multiply
  | divide
  | power
deriving DecidableEq, Repr

def BinaryOperator.symbol : BinaryOperator → String
  | .add => "+"
  | .subtract => "-"
  | .multiply => "*"
  | .divide => "/"
  | .power => "^"

inductive Expression
  | number (value : Float)
  | constant (named : Constant)
  | unary (operator : UnaryOperator) (operand : Expression)
  | binary (operator : BinaryOperator) (left right : Expression)
  | call (function : Function) (argument : Expression)
deriving DecidableEq, Repr

namespace Expression

/-- The number of nodes on the longest path from the root. -/
def depth : Expression → Nat
  | .number _ | .constant _ => 1
  | .unary _ operand => 1 + operand.depth
  | .binary _ left right => 1 + max left.depth right.depth
  | .call _ argument => 1 + argument.depth

def size : Expression → Nat
  | .number _ | .constant _ => 1
  | .unary _ operand => 1 + operand.size
  | .binary _ left right => 1 + left.size + right.size
  | .call _ argument => 1 + argument.size

/-- The same tree with numerically equal literals. An undefined literal equals
nothing, so a tree that holds one does not agree with itself. -/
def agrees : Expression → Expression → Bool
  | .number left, .number right => Binary64.agree left right
  | .constant left, .constant right => left = right
  | .unary leftOperator left, .unary rightOperator right =>
      leftOperator = rightOperator && left.agrees right
  | .binary leftOperator left₁ left₂, .binary rightOperator right₁ right₂ =>
      leftOperator = rightOperator && left₁.agrees right₁ && left₂.agrees right₂
  | .call leftFunction left, .call rightFunction right =>
      leftFunction = rightFunction && left.agrees right
  | _, _ => false

def text : Expression → String
  | .number value => Numeral.plain value
  | .constant named => named.name
  | .unary .negate operand => "(-" ++ operand.text ++ ")"
  | .unary .factorial operand => "(" ++ operand.text ++ "!)"
  | .binary operator left right =>
      "(" ++ left.text ++ " " ++ operator.symbol ++ " " ++ right.text ++ ")"
  | .call function argument => function.name ++ "(" ++ argument.text ++ ")"

end Expression

end Calculator
