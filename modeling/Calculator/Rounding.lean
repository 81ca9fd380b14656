/-!
Division of natural numbers rounded to the nearest whole number. The quotient is
exact up to the final choice, so no error is accumulated before it.
-/

namespace Calculator

/-- Which neighbour receives a quotient lying halfway between two whole numbers. -/
inductive Tie
  | even
  | up
deriving DecidableEq, Repr

/-- The whole number nearest to `numerator / denominator`. -/
def divideRounded (tie : Tie) (numerator denominator : Nat) : Nat :=
  let quotient := numerator / denominator
  let doubled := 2 * (numerator % denominator)
  if doubled < denominator then quotient
  else if denominator < doubled then quotient + 1
  else match tie with
    | .even => quotient + quotient % 2
    | .up => quotient + 1

end Calculator
