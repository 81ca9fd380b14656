import Calculator.Rounding

/-!
Double precision numbers seen as exact quantities. Every finite double is a whole
number of quanta of size `2 ^ -1074`, so a sign and a natural number describe it
completely, and conversion in either direction is exact arithmetic.
-/

namespace Calculator.Binary64

/-- The number of quanta in one. -/
def unit : Nat := Nat.pow 2 1074

/-- The leading bit of a significand, which is not stored. The fraction lies below it
and the exponent field begins with it. -/
def implicitBit : Nat := 0x10000000000000

inductive View
  | finite (negative : Bool) (quanta : Nat)
  | infinite (negative : Bool)
  | undefined
deriving DecidableEq, Repr

/-- Takes the three fields of a double apart. A zero exponent field marks the
numbers without an implicit leading bit; they share the spacing of the next field. -/
def view (value : Float) : View :=
  let bits := value.toBits.toNat
  let negative := decide (0x8000000000000000 ≤ bits)
  let exponent := bits / implicitBit % 0x800
  let fraction := bits % implicitBit
  if exponent = 0x7ff then
    if fraction = 0 then .infinite negative else .undefined
  else if exponent = 0 then .finite negative fraction
  else .finite negative ((implicitBit + fraction) * Nat.pow 2 (exponent - 1))

def isFinite (value : Float) : Bool :=
  match view value with
  | .finite _ _ => true
  | _ => false

/-- Zero of either sign. -/
def isZero (value : Float) : Bool :=
  match view value with
  | .finite _ quanta => quanta = 0
  | _ => false

/-- Strictly below zero, which negative zero is not. -/
def isBelowZero (value : Float) : Bool :=
  match view value with
  | .finite negative quanta => negative && quanta ≠ 0
  | .infinite negative => negative
  | .undefined => false

def isUndefined (value : Float) : Bool :=
  view value = .undefined

/-- Equality of numbers: the two zeros agree, and an undefined value agrees with
nothing, itself included. -/
def agree (left right : Float) : Bool :=
  match view left, view right with
  | .undefined, _ => false
  | .finite _ 0, .finite _ 0 => true
  | leftView, rightView => leftView = rightView

/-- The same magnitude with the opposite sign. -/
def negate (value : Float) : Float :=
  Float.ofBits (value.toBits ^^^ 0x8000000000000000)

/-- The bits of positive infinity, one above those of the largest finite double. -/
def infinityBits : Nat := 0x7ff * implicitBit

/-- The bits of the double nearest to `numerator / denominator`, a half going to the
even significand. Rounding up to a power of two carries into the exponent field,
and every carry past the largest exponent stops at infinity. -/
def nearestBits (numerator denominator : Nat) : Nat :=
  let quanta := numerator * unit
  let shift := (quanta / denominator).log2 - 52
  let significand := divideRounded .even quanta (denominator * Nat.pow 2 shift)
  min (shift * implicitBit + significand) infinityBits

def nearest (numerator denominator : Nat) : Float :=
  Float.ofBits (UInt64.ofNat (nearestBits numerator denominator))

end Calculator.Binary64
