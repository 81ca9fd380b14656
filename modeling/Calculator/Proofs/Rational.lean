import Mathlib
import Calculator.Proofs.Binary64

/-!
# Finite doubles are rational numbers

A finite double stands for one rational number: its signed quanta over the quanta of one. The
test for numbers below zero is a test of that number, and so is every comparison of quanta.
-/

namespace Calculator

namespace Binary64

/-- The number that some quanta are. -/
def ofQuanta (quanta : Nat) : ℚ := quanta / unit

def withSign (negative : Bool) (magnitude : ℚ) : ℚ := if negative then -magnitude else magnitude

/-- The number that a finite double is. -/
def number? (value : Float) : Option ℚ :=
  match view value with
  | .finite negative quanta => some (withSign negative (ofQuanta quanta))
  | _ => none

variable {value : Float} {number : ℚ} {negative : Bool} {quanta whole : Nat}

theorem unit_power : unit = Nat.pow 2 1074 := by
  unfold unit
  generalize 1074 = finest
  rfl

theorem unit_rat_pos : (0 : ℚ) < unit := Nat.cast_pos.mpr unit_pos

theorem of_quanta_nonneg (quanta : Nat) : 0 ≤ ofQuanta quanta :=
  div_nonneg (Nat.cast_nonneg quanta) unit_rat_pos.le

theorem of_quanta_eq_zero : ofQuanta quanta = 0 ↔ quanta = 0 := by
  rw [ofQuanta, div_eq_zero_iff, or_iff_left unit_rat_pos.ne', Nat.cast_eq_zero]

theorem of_quanta_whole (whole : Nat) : ofQuanta (whole * unit) = whole := by
  rw [ofQuanta, Nat.cast_mul, mul_div_cancel_right₀ _ unit_rat_pos.ne']

theorem of_quanta_mul (quanta factor : Nat) :
    ofQuanta (quanta * factor) = ofQuanta quanta * factor := by
  rw [ofQuanta, ofQuanta, Nat.cast_mul, mul_div_right_comm]

theorem of_quanta_le {other : Nat} : ofQuanta quanta ≤ ofQuanta other ↔ quanta ≤ other := by
  rw [ofQuanta, ofQuanta, div_le_div_iff_of_pos_right unit_rat_pos, Nat.cast_le]

theorem of_quanta_dist (quanta other : Nat) :
    ofQuanta (Nat.dist quanta other) = |ofQuanta quanta - ofQuanta other| := by
  rw [ofQuanta, ofQuanta, ofQuanta, ← sub_div, abs_div, abs_of_pos unit_rat_pos]
  congr 1
  rcases Nat.le_total quanta other with ordered | ordered
  · rw [Nat.dist_eq_sub_of_le ordered, Nat.cast_sub ordered, abs_sub_comm, abs_of_nonneg]
    exact sub_nonneg.mpr (Nat.cast_le.mpr ordered)
  · rw [Nat.dist_eq_sub_of_le_right ordered, Nat.cast_sub ordered, abs_of_nonneg]
    exact sub_nonneg.mpr (Nat.cast_le.mpr ordered)

theorem with_sign_unsigned (unsigned : negative → quanta = 0) :
    withSign negative (ofQuanta quanta) = ofQuanta quanta := by
  cases negative with
  | false => rfl
  | true => simp [withSign, of_quanta_eq_zero.mpr (unsigned rfl)]

theorem number_view (finite : view value = .finite negative quanta) :
    number? value = some (withSign negative (ofQuanta quanta)) := by
  rw [number?, finite]

theorem view_of_number (known : number? value = some number) :
    ∃ negative quanta, view value = .finite negative quanta ∧
      number = withSign negative (ofQuanta quanta) := by
  rw [number?] at known
  split at known
  · exact ⟨_, _, ‹_›, (Option.some.inj known).symm⟩
  · cases known

theorem number_none_iff : number? value = none ↔
    (∃ negative, view value = .infinite negative) ∨ view value = .undefined := by
  rw [number?]
  cases view value <;> simp

theorem below_zero_iff (known : number? value = some number) : isBelowZero value ↔ number < 0 := by
  obtain ⟨negative, quanta, finite, rfl⟩ := view_of_number known
  have nonnegative := of_quanta_nonneg quanta
  have zero := @of_quanta_eq_zero quanta
  simp only [isBelowZero, finite]
  cases negative
  · simpa [withSign] using nonnegative
  · simp only [withSign, if_true, Bool.true_and, decide_eq_true_eq, Left.neg_neg_iff]
    rw [← zero.ne, lt_iff_le_and_ne]
    exact ⟨fun nonzero => ⟨nonnegative, nonzero.symm⟩, fun positive => positive.2.symm⟩

/-- A number that is not below zero has no sign, or is zero. -/
theorem magnitude_of_number (known : number? value = some number) (nonnegative : 0 ≤ number) :
    ∃ negative quanta, view value = .finite negative quanta ∧ number = ofQuanta quanta ∧
      (negative → quanta = 0) := by
  have notBelow := mt (below_zero_iff known).mp nonnegative.not_gt
  obtain ⟨negative, quanta, finite, rfl⟩ := view_of_number known
  have unsigned : negative → quanta = 0 := by
    simpa only [isBelowZero, finite, Bool.and_eq_true, decide_eq_true_eq, not_and, ne_eq, not_not]
      using notBelow
  exact ⟨negative, quanta, finite, with_sign_unsigned unsigned, unsigned⟩

end Binary64

end Calculator
