import Calculator.Proofs.Composition
import Calculator.Proofs.Nearest

/-!
# Results are read back

A result is shown rounded to some places, so reading it gives another double than the one
shown. That double is the nearest to the text, and the first one was near enough to be
rounded to the text; therefore both are shown alike.
-/

namespace Calculator

variable {value : Float} {negative : Bool} {quanta places : Nat} {text whole fraction : List Char}
  {library : Elementary} {mode : AngleMode}

namespace Numeral

open Binary64

theorem result_finite (finite : view value = .finite negative quanta) (places : Nat) :
    result places value =
      signed (negative && (rounded places quanta).digits ≠ 0) (rounded places quanta).text := by
  simp only [result, finite]

section Decimals

variable {decimal : Decimal}
  (rounds : Rounds (quanta * Nat.pow 10 decimal.scale) unit decimal.digits)
include rounds

/-- The double nearest to a decimal is no farther from it than one that is rounded to it. -/
theorem reread_rounds (finite : view value = .finite negative quanta) :
    Rounds (nearestQuanta decimal.digits (Nat.pow 10 decimal.scale) * Nat.pow 10 decimal.scale)
      unit decimal.digits := by
  obtain ⟨significand, place, rfl, digits, _⟩ := view_quanta finite
  refine rounds_closer rounds ?_
  rw [Nat.dist_comm, Nat.dist_comm (decimal.digits * unit)]
  exact nearest_quanta_closest (Decimal.ten_power_pos decimal.scale) digits place

/-- Between the two doubles lies at most one, so the nearest is not too large. -/
theorem reread_fits (finite : view value = .finite negative quanta) :
    nearestQuanta decimal.digits (Nat.pow 10 decimal.scale) <
      2 * implicitBit * Nat.pow 2 largestPlace := by
  have shown := rounds.near
  have reread := (reread_rounds rounds finite).near
  have factorPositive := Decimal.ten_power_pos decimal.scale
  generalize Nat.pow 10 decimal.scale = factor at *
  generalize nearestQuanta decimal.digits factor = found at *
  have close : found ≤ quanta + unit := by
    have scaled : found * factor ≤ (quanta + unit) * factor := by
      have enough := Nat.le_mul_of_pos_right unit factorPositive
      simp only [Nat.dist] at shown reread
      rw [Nat.add_mul]
      omega
    exact Nat.le_of_mul_le_mul_right scaled factorPositive
  obtain ⟨significand, place, rfl, digits, within⟩ := view_quanta finite
  have size : significand * Nat.pow 2 place ≤ (2 * implicitBit - 1) * Nat.pow 2 largestPlace :=
    Nat.mul_le_mul (Nat.le_sub_one_of_lt digits) (power_mono within)
  have small := two_units_le
  have positive := unit_pos
  have split : 2 * implicitBit * Nat.pow 2 largestPlace =
      (2 * implicitBit - 1) * Nat.pow 2 largestPlace + Nat.pow 2 largestPlace := by
    have whole : 1 ≤ 2 * implicitBit := by decide
    rw [← Nat.succ_mul, Nat.succ_eq_add_one, Nat.sub_add_cancel whole]
  omega

theorem reread_view (finite : view value = .finite negative quanta) :
    ∃ found, view decimal.toFloat = .finite false found ∧
      divideRounded .even (found * Nat.pow 10 decimal.scale) unit = decimal.digits :=
  ⟨_, nearest_view_quanta (reread_fits rounds finite),
    rounds_unique unit_pos (divide_rounded_rounds _ unit_pos) (reread_rounds rounds finite)⟩

end Decimals

/-- A result is read as a double for which the same result is shown. -/
theorem rounded_again (finite : view value = .finite negative quanta) (places : Nat) :
    ∃ found, view (rounded places quanta).toFloat = .finite false found ∧
      rounded places found = rounded places quanta := by
  have scale : (rounded places quanta).scale = min places 1074 := rfl
  have rounds : Rounds (quanta * Nat.pow 10 (rounded places quanta).scale) unit
      (rounded places quanta).digits := by
    simp only [rounded]
    exact divide_rounded_rounds _ unit_pos
  generalize rounded places quanta = decimal at scale rounds ⊢
  obtain ⟨found, reread, same⟩ := reread_view rounds finite
  refine ⟨found, reread, ?_⟩
  obtain ⟨digits, _⟩ := decimal
  subst scale
  simp only [rounded, same]

end Numeral

/-! Reading a number, with or without a minus -/

theorem number_writes (written : Decimal.Written text whole fraction) :
    Writes .primary text (.number (Decimal.ofText text).toFloat) 0 := by
  have boundary : Boundary [] := nofun
  have scans := scans_number written boundary scans_nil
  rw [List.append_nil] at scans
  exact ⟨_, scans, .number _⟩

theorem evaluate_number (finite : Binary64.isFinite value) :
    (Expression.number value).evaluate library mode = .ok value :=
  if_pos finite

theorem evaluate_negation (finite : Binary64.isFinite value)
    (negated : Binary64.isFinite (Binary64.negate value)) :
    (Expression.unary .negate (.number value)).evaluate library mode =
      .ok (Binary64.negate value) := by
  rw [Expression.evaluate, evaluate_number finite]
  exact if_pos negated

theorem calculate_number {source : String} (spelled : source.toList = text)
    (written : Decimal.Written text whole fraction)
    (reads : (Decimal.ofText text).toFloat = value) (finite : Binary64.isFinite value) :
    calculate library mode defaultDepthLimit source = .ok value := by
  have writes := primary_writes (number_writes written)
  rw [reads, ← spelled] at writes
  rw [calculate_read (read_iff_writes.mpr ⟨1, by decide, writes⟩), evaluate_number finite]
  rfl

theorem calculate_negation {source : String} (spelled : source.toList = '-' :: text)
    (written : Decimal.Written text whole fraction)
    (reads : (Decimal.ofText text).toFloat = value) (finite : Binary64.isFinite value)
    (negated : Binary64.isFinite (Binary64.negate value)) :
    calculate library mode defaultDepthLimit source = .ok (Binary64.negate value) := by
  have writes := negation_writes (number_writes written)
  rw [reads, ← spelled] at writes
  rw [calculate_read (read_iff_writes.mpr ⟨2, by decide, writes⟩), evaluate_negation finite negated]
  rfl

theorem finite_view (finite : Binary64.isFinite value) :
    ∃ negative quanta, Binary64.view value = .finite negative quanta := by
  unfold Binary64.isFinite at finite
  split at finite
  · exact ⟨_, _, ‹_›⟩
  · cases finite

theorem view_is_finite (finite : Binary64.view value = .finite negative quanta) :
    Binary64.isFinite value := by
  simp only [Binary64.isFinite, finite]

/-- The result shown for a finite double, whatever the number of places, is a source in
every mode. It comes to a finite double for which the same text is shown. -/
theorem result_reads_back (finite : Binary64.isFinite value) (places : Nat)
    (library : Elementary) (mode : AngleMode) :
    ∃ again, calculate library mode defaultDepthLimit (Numeral.result places value) = .ok again ∧
      Binary64.isFinite again ∧ Numeral.result places again = Numeral.result places value := by
  obtain ⟨negative, quanta, viewed⟩ := finite_view finite
  obtain ⟨found, reread, same⟩ := Numeral.rounded_again viewed places
  have shown := Numeral.result_finite viewed places
  generalize Numeral.rounded places quanta = decimal at reread same shown
  have written := decimal.text_written
  have reads := decimal.to_float_of_text
  generalize decimal.toFloat = again at reread reads
  rw [shown]
  cases sign : negative && decide (decimal.digits ≠ 0) with
  | true =>
      have negated := Binary64.view_negate reread
      refine ⟨Binary64.negate again, ?_, view_is_finite negated, ?_⟩
      · exact calculate_negation String.toList_ofList written reads (view_is_finite reread)
          (view_is_finite negated)
      · rw [Numeral.result_finite negated, same, Bool.true_and, (Bool.and_eq_true_iff.mp sign).2]
  | false =>
      refine ⟨again, ?_, view_is_finite reread, ?_⟩
      · exact calculate_number String.toList_ofList written reads (view_is_finite reread)
      · rw [Numeral.result_finite reread, same, Bool.false_and]

/-- Minus two thirds are shown with two places, and so is the double that this text is. -/
theorem result_reads_back_thirds :
    Binary64.isFinite (Float.ofBits 0xbfe5555555555555) ∧
      Numeral.result 2 (Float.ofBits 0xbfe5555555555555) = "-0.67" ∧
      ∃ again, calculate .native .degrees defaultDepthLimit "-0.67" = .ok again ∧
        Binary64.isFinite again ∧ Numeral.result 2 again = "-0.67" := by
  have finite : Binary64.isFinite (Float.ofBits 0xbfe5555555555555) := by decide +kernel
  have shown : Numeral.result 2 (Float.ofBits 0xbfe5555555555555) = "-0.67" := by
    decide +kernel
  have again := result_reads_back finite 2 .native .degrees
  rw [shown] at again
  exact ⟨finite, shown, again⟩

end Calculator
