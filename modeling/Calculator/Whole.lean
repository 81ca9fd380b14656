import Calculator.Binary64

/-!
Whole numbers among the doubles, and the factorial. All tests are made on the exact
quantity, so none of them is disturbed by rounding.
-/

namespace Calculator.Whole

open Binary64

/-- The whole number nearest to a double, if it lies within a relative distance of
`2 ^ -52` (absolute below one). The sign is kept, also on zero. -/
def near? (value : Float) : Option Float :=
  match view value with
  | .finite negative quanta =>
      let whole := divideRounded .up quanta unit
      let distance := (quanta - whole * unit) + (whole * unit - quanta)
      if distance * implicitBit ≤ max quanta unit then
        let magnitude := nearest whole 1
        some (if negative then negate magnitude else magnitude)
      else none
  | _ => none

/-- Beyond this number neighbouring whole numbers are no longer distinct doubles. -/
def largestSafe : Nat := 9007199254740991

/-- The natural number that a double is exactly, up to `largestSafe`. -/
def natural? (value : Float) : Option Nat :=
  match view value with
  | .finite negative quanta =>
      if (negative && quanta ≠ 0) || largestSafe * unit < quanta || quanta % unit ≠ 0 then none
      else some (quanta / unit)
  | _ => none

/-- The largest number of a signed word of 64 bits. -/
def wordLimit : Nat := 9223372036854775807

/-- Multiplies `product` by `factor`, `factor + 1`, up to `last`. Each product is
known to fit before it is formed. -/
def multiplyUp (last factor product : Nat) : Option Nat :=
  if last < factor then some product
  else if wordLimit / factor < product then none
  else multiplyUp last (factor + 1) (product * factor)
termination_by last + 1 - factor

def factorial? (n : Nat) : Option Nat := multiplyUp n 2 1

end Calculator.Whole
