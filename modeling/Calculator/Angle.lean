import Calculator.Name

/-!
The unit in which angles are given.
-/

namespace Calculator

inductive AngleMode
  | radians
  | degrees
deriving DecidableEq, Repr

/-- A text that names no angle mode, in small letters. -/
structure UnknownAngleMode where
  text : String
deriving DecidableEq, Repr

def UnknownAngleMode.message (unknown : UnknownAngleMode) : String :=
  s!"unknown angle mode '{unknown.text}', expected 'radians' or 'degrees'"

namespace AngleMode

def name : AngleMode → String
  | .radians => "radians"
  | .degrees => "degrees"

/-- Reads a mode, in full or abbreviated. Only the letters of ASCII have their case
ignored. -/
def ofText (text : String) : Except UnknownAngleMode AngleMode :=
  match text.map Char.toLower with
  | "rad" => .ok .radians
  | "radians" => .ok .radians
  | "deg" => .ok .degrees
  | "degrees" => .ok .degrees
  | lowered => .error { text := lowered }

/-- The angle in radians. Degrees are multiplied before they are divided, and both
steps round. -/
def toRadians : AngleMode → Float → Float
  | .radians, angle => angle
  | .degrees, angle => angle * Constant.pi.value / 180

end AngleMode

end Calculator
