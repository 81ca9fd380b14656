import Calculator.Evaluation
import Calculator.Parse
import Calculator.Token.Scan

/-!
From a source text to its value: lexemes, tree, value. The first of the three steps
that fails gives the failure of the whole.
-/

namespace Calculator

inductive Failure
  | unknownToken (error : UnknownToken)
  | parse (error : ParseError)
  | evaluation (error : EvalError)
deriving DecidableEq, Repr

def Failure.message : Failure → String
  | .unknownToken error => error.message
  | .parse error => error.message
  | .evaluation error => error.message

/-- The tree a source text stands for. -/
def readExpression (limit : Nat) (source : String) : Except Failure Expression := do
  let found ← (lexemes source).mapError .unknownToken
  (parse found limit).mapError .parse

def calculate (library : Elementary) (mode : AngleMode) (limit : Nat) (source : String) :
    Except Failure Float := do
  let tree ← readExpression limit source
  (tree.evaluate library mode).mapError .evaluation

end Calculator
