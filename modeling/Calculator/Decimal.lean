import Calculator.Binary64

/-!
Decimal numbers with a fixed number of places, and their canonical text: digits
without a leading zero, then a point only where a digit other than zero follows.
-/

namespace Calculator

/-- The number `digits / 10 ^ scale`. -/
structure Decimal where
  digits : Nat
  scale : Nat
deriving DecidableEq, Repr

namespace Decimal

/-- The digits of `rest / 10 ^ scale` behind the point, up to the last that is not zero. -/
def fractionDigits : Nat → Nat → List Char
  | 0, _ => []
  | scale + 1, rest =>
      if rest = 0 then []
      else Nat.digitChar (rest / Nat.pow 10 scale) :: fractionDigits scale (rest % Nat.pow 10 scale)

def text (decimal : Decimal) : List Char :=
  let unit := Nat.pow 10 decimal.scale
  let fraction := fractionDigits decimal.scale (decimal.digits % unit)
  Nat.toDigits 10 (decimal.digits / unit) ++ if fraction.isEmpty then [] else '.' :: fraction

/-- The number written as digits around at most one point. -/
def ofText (source : List Char) : Decimal :=
  let whole := source.takeWhile (· ≠ '.')
  let fraction := (source.dropWhile (· ≠ '.')).drop 1
  { digits := Nat.ofDigitChars 10 (whole ++ fraction) 0, scale := fraction.length }

def toFloat (decimal : Decimal) : Float :=
  Binary64.nearest decimal.digits (Nat.pow 10 decimal.scale)

end Decimal

end Calculator
