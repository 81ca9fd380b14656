import Calculator.Numeral
import Calculator.Proofs.Binary64

/-!
# Decimals read back from their text

The text of a decimal drops zeros at the end and at the front, so reading it gives
another decimal of the same value. The shortest text of a double is one that reads
back by construction; here it is shown that the search always ends at such a text.
-/

namespace Calculator

namespace Decimal

variable {scale rest : Nat} {digit : Char}

theorem leading_digit_lt (below : rest < Nat.pow 10 (scale + 1)) :
    rest / Nat.pow 10 scale < 10 :=
  Nat.div_lt_of_lt_mul below

theorem ten_power_pos (scale : Nat) : 0 < Nat.pow 10 scale := power_pos (by decide) scale

theorem fraction_digits_are_digits (below : rest < Nat.pow 10 scale) :
    ∀ digit ∈ fractionDigits scale rest, digit.isDigit := by
  induction scale generalizing rest with
  | zero => simp [fractionDigits]
  | succ scale ih =>
      intro digit member
      unfold fractionDigits at member
      split at member
      · simp at member
      · rcases List.mem_cons.mp member with rfl | member
        · simpa [Nat.isDigit_digitChar] using leading_digit_lt below
        · exact ih (Nat.mod_lt _ (ten_power_pos scale)) digit member

/-- The written places have the value of all places; the others are zero. -/
theorem fraction_digits_value (below : rest < Nat.pow 10 scale) :
    (fractionDigits scale rest).length ≤ scale ∧
      Nat.ofDigitChars 10 (fractionDigits scale rest) 0 *
        Nat.pow 10 (scale - (fractionDigits scale rest).length) = rest := by
  induction scale generalizing rest with
  | zero =>
      have zero : rest = 0 := Nat.lt_one_iff.mp below
      simp [fractionDigits, zero]
  | succ scale ih =>
      unfold fractionDigits
      split
      · rename_i zero
        simp [zero]
      · have smaller := Nat.mod_lt rest (ten_power_pos scale)
        generalize same : fractionDigits scale (rest % Nat.pow 10 scale) = tail
        have value := ih smaller
        rw [same] at value
        refine ⟨Nat.succ_le_succ value.1, ?_⟩
        rw [Nat.ofDigitChars_cons_digitChar_of_lt_ten (leading_digit_lt below),
          Nat.ofDigitChars_eq_ofDigitChars_zero, List.length_cons, Nat.add_sub_add_right,
          Nat.add_mul, value.2]
        have places : 10 ^ tail.length * Nat.pow 10 (scale - tail.length) = Nat.pow 10 scale := by
          rw [Nat.pow_eq, ← Nat.pow_add, Nat.add_sub_cancel' value.1, Nat.pow_eq]
        rw [Nat.mul_zero, Nat.zero_add, Nat.mul_right_comm, places, Nat.div_add_mod]

/-- Digits, and possibly a point with further digits. -/
structure Written (text : List Char) (whole fraction : List Char) : Prop where
  split : text = whole ++ if fraction.isEmpty then [] else '.' :: fraction
  nonempty : whole ≠ []
  wholeDigits : ∀ digit ∈ whole, digit.isDigit
  fractionDigits : ∀ digit ∈ fraction, digit.isDigit

theorem text_written (decimal : Decimal) :
    Written decimal.text (Nat.toDigits 10 (decimal.digits / Nat.pow 10 decimal.scale))
      (fractionDigits decimal.scale (decimal.digits % Nat.pow 10 decimal.scale)) where
  split := rfl
  nonempty := Nat.toDigits_ne_nil
  wholeDigits := fun _ member => Nat.isDigit_of_mem_toDigits (by decide) (by decide) member
  fractionDigits := fraction_digits_are_digits (Nat.mod_lt _ (ten_power_pos _))

theorem of_text_written {text whole fraction : List Char} (written : Written text whole fraction) :
    ofText text =
      { digits := Nat.ofDigitChars 10 (whole ++ fraction) 0, scale := fraction.length } := by
  have noPoint : ∀ digit ∈ whole, decide (digit ≠ '.') = true := by
    intro digit member
    have isDigit := written.wholeDigits digit member
    simp only [decide_eq_true_eq]
    rintro rfl
    exact absurd isDigit (by decide)
  rw [written.split, ofText, List.takeWhile_append_of_pos noPoint,
    List.dropWhile_append_of_pos noPoint]
  cases fraction <;> simp

/-- Reading the text of a decimal loses only zeros at the end. -/
theorem of_text_text (decimal : Decimal) :
    (ofText decimal.text).scale ≤ decimal.scale ∧
      (ofText decimal.text).digits * Nat.pow 10 (decimal.scale - (ofText decimal.text).scale) =
        decimal.digits := by
  rw [of_text_written decimal.text_written]
  have value := fraction_digits_value (Nat.mod_lt decimal.digits (ten_power_pos decimal.scale))
  generalize same : fractionDigits decimal.scale (decimal.digits % Nat.pow 10 decimal.scale) =
    fraction at value
  refine ⟨value.1, ?_⟩
  have places : 10 ^ fraction.length * Nat.pow 10 (decimal.scale - fraction.length) =
      Nat.pow 10 decimal.scale := by
    rw [Nat.pow_eq, ← Nat.pow_add, Nat.add_sub_cancel' value.1, Nat.pow_eq]
  rw [Nat.ofDigitChars_append, Nat.ofDigitChars_ten_toDigits,
    Nat.ofDigitChars_eq_ofDigitChars_zero, Nat.add_mul, value.2, Nat.mul_right_comm, places,
    Nat.div_add_mod]

theorem to_float_of_text (decimal : Decimal) :
    (ofText decimal.text).toFloat = decimal.toFloat := by
  have read := of_text_text decimal
  generalize ofText decimal.text = found at read
  have places : Nat.pow 10 decimal.scale =
      Nat.pow 10 found.scale * Nat.pow 10 (decimal.scale - found.scale) := by
    simp only [Nat.pow_eq, ← Nat.pow_add, Nat.add_sub_cancel' read.1]
  rw [toFloat, toFloat, Binary64.nearest, Binary64.nearest, places, ← read.2,
    Binary64.nearest_bits_scale _ _ (ten_power_pos _)]

theorem nearest_bits_places (quanta unit places : Nat) (isPower : unit = Nat.pow 2 places) :
    Binary64.nearestBits (quanta * Nat.pow 5 places) (Nat.pow 10 places) =
      Binary64.nearestBits quanta unit := by
  have ten : Nat.pow 10 places = unit * Nat.pow 5 places := by
    rw [isPower, Nat.pow_eq, Nat.pow_eq, Nat.pow_eq, ← Nat.mul_pow]
  rw [ten, Binary64.nearest_bits_scale quanta unit (power_pos (by decide) places)]

theorem reads_back_exact (quanta : Nat) : readsBack quanta (exactDigits quanta) = true :=
  decide_eq_true (nearest_bits_places quanta Binary64.unit 1074 rfl)

theorem neighbour_accepted {accepts : Nat → Bool} {exact step digits : Nat}
    (found : neighbour? accepts exact step = some digits) : accepts digits = true := by
  simp only [neighbour?] at found
  split at found
  · split at found <;> simp_all
  · simp_all
  · simp_all
  · simp at found

theorem search_accepted {accepts : Nat → Bool} {exact : Nat} (exactly : accepts exact = true)
    (dropped : Nat) : accepts (searchShortest accepts exact dropped) = true := by
  induction dropped with
  | zero => exact exactly
  | succ dropped ih =>
      rw [searchShortest]
      split
      · rename_i found
        exact neighbour_accepted found
      · exact ih

end Decimal

variable {value : Float} {quanta : Nat}

theorem plain_text (finite : Binary64.view value = .finite false quanta) :
    (Numeral.plain value).toList = (Decimal.shortest quanta).text := by
  simp [Numeral.plain, finite, Numeral.signed]

theorem plain_written (finite : Binary64.view value = .finite false quanta) :
    ∃ whole fraction, Decimal.Written (Numeral.plain value).toList whole fraction := by
  rw [plain_text finite]
  exact ⟨_, _, (Decimal.shortest quanta).text_written⟩

/-- The plain numeral of a finite double without a sign is read as the same double. -/
theorem plain_reads_back (finite : Binary64.view value = .finite false quanta) :
    (Decimal.ofText (Numeral.plain value).toList).toFloat = value := by
  have found := Decimal.search_accepted (Decimal.reads_back_exact quanta)
    ((Nat.toDigits 10 (Decimal.exactDigits quanta)).length - 1)
  rw [Decimal.readsBack, decide_eq_true_eq] at found
  rw [plain_text finite, Decimal.to_float_of_text, Decimal.toFloat, Decimal.shortest,
    Binary64.nearest, found]
  exact Binary64.nearest_view finite

end Calculator
