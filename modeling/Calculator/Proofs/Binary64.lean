import Mathlib
import Calculator.Decimal.Shortest

/-!
# Doubles are found again from their exact quantity

A finite double is a whole number of quanta. Rounding that number, written over any
common factor, gives back the very same bits: the exponent field is read off the
number of binary digits, and nothing is left to round.
-/

namespace Calculator

theorem power_pos {base : Nat} (positive : 0 < base) (exponent : Nat) :
    0 < Nat.pow base exponent := Nat.pow_pos positive

theorem divide_rounded_scale (tie : Tie) (numerator denominator : Nat) {factor : Nat}
    (positive : 0 < factor) :
    divideRounded tie (numerator * factor) (denominator * factor) =
      divideRounded tie numerator denominator := by
  simp only [divideRounded, Nat.mul_div_mul_right _ _ positive, Nat.mul_mod_mul_right,
    ← Nat.mul_assoc, Nat.mul_lt_mul_right positive]

theorem divide_rounded_exact (tie : Tie) (quotient : Nat) {denominator : Nat}
    (positive : 0 < denominator) :
    divideRounded tie (quotient * denominator) denominator = quotient := by
  simp [divideRounded, Nat.mul_div_cancel _ positive, positive]

namespace Binary64

theorem unit_pos : 0 < unit := by
  unfold unit
  generalize 1074 = places
  exact power_pos Nat.two_pos places

/-- Rounding depends on the quotient alone. -/
theorem nearest_bits_scale (numerator denominator : Nat) {factor : Nat}
    (positive : 0 < factor) :
    nearestBits (numerator * factor) (denominator * factor) =
      nearestBits numerator denominator := by
  have quanta : numerator * factor * unit = numerator * unit * factor :=
    Nat.mul_right_comm _ _ _
  have quotient : numerator * factor * unit / (denominator * factor) =
      numerator * unit / denominator := by
    rw [quanta, Nat.mul_div_mul_right _ _ positive]
  simp only [nearestBits, quotient]
  rw [quanta, Nat.mul_right_comm denominator factor, divide_rounded_scale _ _ _ positive]

theorem log2_mul_power {significand : Nat} (nonzero : significand ≠ 0) (shift : Nat) :
    (significand * Nat.pow 2 shift).log2 = significand.log2 + shift := by
  induction shift with
  | zero => simp
  | succ shift ih =>
      have split : significand * Nat.pow 2 (shift + 1) =
          2 * (significand * Nat.pow 2 shift) := by
        rw [show Nat.pow 2 (shift + 1) = Nat.pow 2 shift * 2 from rfl, ← Nat.mul_assoc,
          Nat.mul_comm]
      have product : significand * Nat.pow 2 shift ≠ 0 :=
        Nat.mul_ne_zero nonzero (Nat.ne_of_gt (power_pos Nat.two_pos shift))
      rw [split, Nat.log2_two_mul product, ih, Nat.add_assoc]

theorem nearest_bits_exact (significand shift : Nat)
    (places : (significand * Nat.pow 2 shift).log2 - 52 = shift) :
    nearestBits (significand * Nat.pow 2 shift) unit =
      min (shift * implicitBit + significand) infinityBits := by
  have quotient : significand * Nat.pow 2 shift * unit / unit =
      significand * Nat.pow 2 shift := Nat.mul_div_cancel _ unit_pos
  have whole : significand * Nat.pow 2 shift * unit =
      significand * (unit * Nat.pow 2 shift) := by
    rw [Nat.mul_assoc, Nat.mul_comm unit]
  have positive : 0 < unit * Nat.pow 2 shift := Nat.mul_pos unit_pos (power_pos Nat.two_pos shift)
  simp only [nearestBits, quotient, places]
  rw [whole, divide_rounded_exact .even significand positive]

/-- Besides the sign no bit of a zero is set. -/
theorem zero_bits (zero : isZero value) :
    value.toBits = 0 ∨ value.toBits = 0x8000000000000000 := by
  have word := value.toBits.toNat_lt
  suffices bare : value.toBits.toNat = 0 ∨ value.toBits.toNat = 0x8000000000000000 from
    bare.imp UInt64.toNat_inj.mp UInt64.toNat_inj.mp
  simp only [isZero] at zero
  split at zero
  · rename_i negative quanta viewed
    have none : quanta = 0 := of_decide_eq_true zero
    simp only [view] at viewed
    generalize value.toBits.toNat = bits at *
    split at viewed
    · split at viewed <;> cases viewed
    split at viewed
    · obtain ⟨_, rfl⟩ := View.finite.inj viewed
      simp only [implicitBit] at *
      omega
    · obtain ⟨_, rfl⟩ := View.finite.inj viewed
      -- The leading bit and its place are both positive.
      have place := Nat.two_pow_pos (bits / implicitBit % 0x800 - 1)
      simp only [implicitBit] at *
      rcases Nat.mul_eq_zero.mp none with leading | powerless
      · omega
      · exact absurd powerless (Nat.ne_of_gt place)
  · cases zero

theorem log2_subnormal {significand : Nat} (small : significand < implicitBit) :
    significand.log2 - 52 = 0 := by
  by_cases zero : significand = 0
  · rw [zero]
    decide
  · have digits : significand.log2 < 52 := (Nat.log2_lt zero).mpr small
    omega

theorem log2_normal {fraction : Nat} (small : fraction < implicitBit) :
    (implicitBit + fraction).log2 = 52 := by
  unfold implicitBit at *
  exact (Nat.log2_eq_iff (by omega)).mpr ⟨by omega, by omega⟩

/-- The bits of a finite double without a sign are those its quantity rounds to. -/
theorem nearest_bits_view {value : Float} {quanta : Nat}
    (finite : view value = .finite false quanta) :
    nearestBits quanta unit = value.toBits.toNat := by
  simp only [view] at finite
  generalize value.toBits.toNat = bits at finite
  have fractionSmall : bits % implicitBit < implicitBit := Nat.mod_lt _ (by decide)
  split at finite
  · split at finite <;> simp at finite
  · rename_i notLargest
    split at finite
    · rename_i subnormal
      simp only [View.finite.injEq, decide_eq_false_iff_not] at finite
      obtain ⟨unsigned, rfl⟩ := finite
      have packed := nearest_bits_exact (bits % implicitBit) 0
        (log2_subnormal ((Nat.mul_one _).symm ▸ fractionSmall))
      rw [show bits % implicitBit * Nat.pow 2 0 = bits % implicitBit from Nat.mul_one _] at packed
      rw [packed]
      simp only [infinityBits, implicitBit] at *
      omega
    · rename_i normal
      simp only [View.finite.injEq, decide_eq_false_iff_not] at finite
      obtain ⟨unsigned, rfl⟩ := finite
      have digits := log2_normal fractionSmall
      have nonzero : implicitBit + bits % implicitBit ≠ 0 := by
        simp only [implicitBit]
        omega
      rw [nearest_bits_exact _ _ (by rw [log2_mul_power nonzero, digits]; omega)]
      simp only [infinityBits, implicitBit] at *
      omega

/-- A finite double without a sign is the one nearest to its own quantity. -/
theorem nearest_view {value : Float} {quanta : Nat}
    (finite : view value = .finite false quanta) : nearest quanta unit = value := by
  rw [nearest, nearest_bits_view finite, UInt64.ofNat_toNat, Float.ofBits_toBits]

end Binary64

end Calculator
