import Calculator.Binary64

/-!
The keys that change a displayed value.
-/

namespace Calculator.Keypad

def percent (value : Float) : Float := value / 100

/-- Zero has no sign to change and stays positive. -/
def toggleSign (value : Float) : Float :=
  if Binary64.isZero value then 0 else Binary64.negate value

end Calculator.Keypad
