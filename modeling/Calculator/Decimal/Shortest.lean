import Calculator.Decimal

/-!
The shortest decimal that reads back as a given double. Every double is itself a
decimal with 1074 places, so the search over fewer and fewer dropped digits ends at
the exact value at the latest.
-/

namespace Calculator.Decimal

/-- The exact digits of a number of quanta at 1074 places. -/
def exactDigits (quanta : Nat) : Nat := quanta * Nat.pow 5 1074

def readsBack (quanta digits : Nat) : Bool :=
  Binary64.nearestBits digits (Nat.pow 10 1074) = Binary64.nearestBits quanta Binary64.unit

/-- Of the two multiples of `step` around `exact` the accepted one. If both are, the
nearer is taken, and of two equally near the larger. -/
def neighbour? (accepts : Nat → Bool) (exact step : Nat) : Option Nat :=
  let lower := exact / step * step
  let upper := lower + step
  match accepts lower, accepts upper with
  | true, true => some (if exact - lower < upper - exact then lower else upper)
  | true, false => some lower
  | false, true => some upper
  | false, false => none

/-- Drops as many digits as possible, at most `dropped`. -/
def searchShortest (accepts : Nat → Bool) (exact : Nat) : Nat → Nat
  | 0 => exact
  | dropped + 1 =>
      match neighbour? accepts exact (Nat.pow 10 (dropped + 1)) with
      | some digits => digits
      | none => searchShortest accepts exact dropped

def shortest (quanta : Nat) : Decimal :=
  let exact := exactDigits quanta
  let dropped := (Nat.toDigits 10 exact).length - 1
  { digits := searchShortest (readsBack quanta) exact dropped, scale := 1074 }

end Calculator.Decimal
