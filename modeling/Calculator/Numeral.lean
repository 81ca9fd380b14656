import Calculator.Decimal.Shortest

/-!
The two texts of a double. The plain numeral is the shortest that reads back, with
every digit written out and never an exponent. A result is shown with a limited
number of places, correctly rounded from the exact value.
-/

namespace Calculator.Numeral

def signed (negative : Bool) (magnitude : List Char) : String :=
  String.ofList (if negative then '-' :: magnitude else magnitude)

/-- Negative zero keeps its sign here. -/
def plain (value : Float) : String :=
  match Binary64.view value with
  | .finite negative quanta => signed negative (Decimal.shortest quanta).text
  | .infinite negative => signed negative "inf".toList
  | .undefined => "NaN"

/-- The exact number of quanta to at most `places` decimals, a half going to the
even digit. No double has more than 1074 places, so further ones are not computed. -/
def rounded (places quanta : Nat) : Decimal :=
  let scale := min places 1074
  { digits := divideRounded .even (quanta * Nat.pow 10 scale) Binary64.unit, scale }

/-- A value that rounds to zero is shown without a sign. -/
def result (places : Nat) (value : Float) : String :=
  match Binary64.view value with
  | .finite negative quanta =>
      let decimal := rounded places quanta
      signed (negative && decimal.digits ≠ 0) decimal.text
  | .infinite negative => signed negative "inf".toList
  | .undefined => "NaN"

end Calculator.Numeral
