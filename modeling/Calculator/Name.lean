/-!
The names an expression may contain. A function or constant can have more than one
spelling; each has a single canonical name, which is the one shown.
-/

namespace Calculator

inductive Function
  | sin
  | cos
  | tan
  | log
  | ln
  | sqrt
deriving DecidableEq, Repr

namespace Function

def named? : String → Option Function
  | "sin" => some .sin
  | "cos" => some .cos
  | "tan" => some .tan
  | "log" => some .log
  | "ln" => some .ln
  | "sqrt" => some .sqrt
  | "√" => some .sqrt
  | _ => none

def name : Function → String
  | .sin => "sin"
  | .cos => "cos"
  | .tan => "tan"
  | .log => "log"
  | .ln => "ln"
  | .sqrt => "sqrt"

/-- Whether the argument is an angle. -/
def takesAngle : Function → Bool
  | .sin | .cos | .tan => true
  | .log | .ln | .sqrt => false

theorem named_name (function : Function) : named? function.name = some function := by
  cases function <;> rfl

end Function

inductive Constant
  | pi
  | e
deriving DecidableEq, Repr

namespace Constant

def named? : String → Option Constant
  | "π" => some .pi
  | "pi" => some .pi
  | "e" => some .e
  | _ => none

def name : Constant → String
  | .pi => "π"
  | .e => "e"

/-- The nearest double. -/
def value : Constant → Float
  | .pi => Float.ofBits 0x400921fb54442d18
  | .e => Float.ofBits 0x4005bf0a8b145769

theorem named_name (constant : Constant) : named? constant.name = some constant := by
  cases constant <;> rfl

end Constant

/-- Whether a name denotes anything. -/
def isKnownName (name : String) : Bool :=
  (Function.named? name).isSome || (Constant.named? name).isSome

end Calculator
