import Mathlib
import Calculator.Proofs.Decimal

/-!
# Canonical decimals

A number with finitely many decimals has one canonical text: no zero in front that could be
left out, none behind the last other decimal, and no minus before zero. The text of a decimal
is the canonical one of its value, however many places the decimal has.
-/

namespace Calculator

/-- The digits before and behind the point of a decimal in canonical form. -/
structure CanonicalDigits (places : Nat) (whole fraction : List Char) : Prop where
  wholeDigits : ∀ digit ∈ whole, digit.isDigit
  nonempty : whole ≠ []
  leading : whole.head? = some '0' → whole = ['0']
  fractionDigits : ∀ digit ∈ fraction, digit.isDigit
  short : fraction.length ≤ places
  last : fraction.getLast? ≠ some '0'

/-- A point stands only in front of further digits. -/
def spelled (whole fraction : List Char) : List Char :=
  whole ++ if fraction.isEmpty then [] else '.' :: fraction

/-- The number that digits before and behind a point mean. -/
def meant (whole fraction : List Char) : ℚ :=
  Nat.ofDigitChars 10 (whole ++ fraction) 0 / 10 ^ fraction.length

/-- The canonical text of a number with at most so many decimals. A minus is written only in
front of a number that is not zero. -/
inductive Canonical (places : Nat) : List Char → ℚ → Prop
  | plain {whole fraction : List Char} : CanonicalDigits places whole fraction →
      Canonical places (spelled whole fraction) (meant whole fraction)
  | minus {whole fraction : List Char} : CanonicalDigits places whole fraction →
      meant whole fraction ≠ 0 →
      Canonical places ('-' :: spelled whole fraction) (-meant whole fraction)

variable {places scale rest number : Nat} {whole fraction text : List Char} {digit : Char}

/-! Digits and their value -/

theorem digit_value (isDigit : digit.isDigit) : ∃ value < 10, Nat.digitChar value = digit := by
  obtain ⟨low, high⟩ := Char.isDigit_iff_toNat.mp isDigit
  have first : '0'.toNat = 48 := rfl
  have final : '9'.toNat = 57 := rfl
  refine ⟨digit.toNat - 48, by omega, Char.toNat_inj.mp ?_⟩
  rw [Nat.toNat_digitChar_of_lt_ten (by omega)]
  omega

theorem digit_chars_cons {value : Nat} (small : value < 10) (digits : List Char) :
    Nat.ofDigitChars 10 (Nat.digitChar value :: digits) 0 =
      10 ^ digits.length * value + Nat.ofDigitChars 10 digits 0 := by
  rw [Nat.ofDigitChars_cons_digitChar_of_lt_ten small, Nat.ofDigitChars_eq_ofDigitChars_zero,
    Nat.mul_zero, Nat.zero_add]

theorem digit_chars_lt (digits : ∀ digit ∈ text, digit.isDigit) :
    Nat.ofDigitChars 10 text 0 < 10 ^ text.length := by
  induction text with
  | nil => exact Nat.one_pos
  | cons digit others ih =>
      obtain ⟨value, small, rfl⟩ := digit_value (digits digit (List.mem_cons_self ..))
      have below := ih fun other member => digits other (List.mem_cons_of_mem _ member)
      have place := Nat.mul_le_mul_left (10 ^ others.length) (Nat.le_of_lt_succ small)
      rw [digit_chars_cons small, List.length_cons, Nat.pow_succ]
      omega

theorem to_digits_head (positive : 0 < number) : (Nat.toDigits 10 number).head? ≠ some '0' := by
  induction number using Nat.strong_induction_on with
  | _ number ih =>
      rcases Nat.lt_or_ge number 10 with small | large
      · rw [Nat.toDigits_of_lt_base small]
        simpa [Nat.digitChar_eq_zero] using positive.ne'
      · obtain ⟨first, others, split⟩ :=
          List.exists_cons_of_ne_nil (@Nat.toDigits_ne_nil (number / 10) 10)
        have head := ih (number / 10) (by omega) (by omega)
        rw [Nat.toDigits_of_base_le (by decide) large, split] at *
        exact head

theorem to_digits_leading (zero : (Nat.toDigits 10 number).head? = some '0') :
    Nat.toDigits 10 number = ['0'] := by
  rcases number.eq_zero_or_pos with rfl | positive
  · rfl
  · exact absurd zero (to_digits_head positive)

/-- Digits that do not begin with zero are written for their value. -/
theorem to_digits_value (digits : ∀ digit ∈ whole, digit.isDigit) (nonempty : whole ≠ [])
    (leading : whole.head? = some '0' → whole = ['0']) :
    Nat.toDigits 10 (Nat.ofDigitChars 10 whole 0) = whole := by
  induction whole using List.reverseRecOn with
  | nil => exact absurd rfl nonempty
  | append_singleton front digit ih =>
      obtain ⟨value, small, rfl⟩ := digit_value (digits digit (by simp))
      rw [Nat.ofDigitChars_append, Nat.ofDigitChars_cons_digitChar_of_lt_ten small,
        Nat.ofDigitChars_nil]
      cases front with
      | nil => simp [Nat.toDigits_of_lt_base small]
      | cons first others =>
          have notZero : (first :: others).head? ≠ some '0' := fun zero => by
            simpa using leading zero
          have written := ih (fun digit member => digits digit (List.mem_append_left _ member))
            (List.cons_ne_nil _ _) fun zero => absurd zero notZero
          have positive : 0 < Nat.ofDigitChars 10 (first :: others) 0 := by
            refine Nat.pos_of_ne_zero fun zero => notZero ?_
            rw [← written, zero]
            rfl
          rw [← Nat.toDigits_append_toDigits (by decide) positive small, written,
            Nat.toDigits_of_lt_base small]

namespace Decimal

theorem fraction_digits_zero (scale : Nat) : fractionDigits scale 0 = [] := by
  cases scale <;> rfl

theorem fraction_digits_nil (below : rest < Nat.pow 10 scale)
    (none : fractionDigits scale rest = []) : rest = 0 := by
  have value := (fraction_digits_value below).2
  rw [none] at value
  exact value.symm.trans (Nat.zero_mul _)

theorem quotient_zero_iff {factor : Nat} (divides : rest % factor = 0) :
    rest / factor = 0 ↔ rest = 0 := by
  have split := Nat.div_add_mod rest factor
  rw [divides] at split
  refine ⟨fun zero => ?_, fun zero => by rw [zero, Nat.zero_div]⟩
  rw [zero] at split
  exact split.symm

/-- The last decimal that is written is not zero. -/
theorem fraction_digits_last (below : rest < Nat.pow 10 scale) :
    (fractionDigits scale rest).getLast? ≠ some '0' := by
  induction scale generalizing rest with
  | zero => simp [fractionDigits]
  | succ scale ih =>
      unfold fractionDigits
      split
      · simp
      rename_i nonzero
      have smaller := Nat.mod_lt rest (ten_power_pos scale)
      have last := ih smaller
      cases behind : fractionDigits scale (rest % Nat.pow 10 scale) with
      | nil =>
          have divides := fraction_digits_nil smaller behind
          simpa [Nat.digitChar_eq_zero] using mt (quotient_zero_iff divides).mp nonzero
      | cons next others =>
          rw [behind] at last
          rwa [List.getLast?_cons_cons]

/-- Decimals that do not end with zero are written for their value. -/
theorem fraction_digits_of_value (digits : ∀ digit ∈ fraction, digit.isDigit)
    (last : fraction.getLast? ≠ some '0') :
    fractionDigits fraction.length (Nat.ofDigitChars 10 fraction 0) = fraction := by
  induction fraction with
  | nil => rfl
  | cons digit others ih =>
      obtain ⟨value, small, rfl⟩ := digit_value (digits digit (List.mem_cons_self ..))
      have otherDigits : ∀ other ∈ others, other.isDigit :=
        fun other member => digits other (List.mem_cons_of_mem _ member)
      have otherLast : others.getLast? ≠ some '0' := by
        cases others with
        | nil => exact nofun
        | cons next later => rwa [List.getLast?_cons_cons] at last
      have below := digit_chars_lt otherDigits
      have written := ih otherDigits otherLast
      have positive : 0 < 10 ^ others.length := ten_power_pos _
      rw [digit_chars_cons small, List.length_cons, fractionDigits, Nat.pow_eq,
        Nat.mul_add_div positive, Nat.mul_add_mod, Nat.div_eq_of_lt below,
        Nat.mod_eq_of_lt below, Nat.add_zero, written, if_neg]
      intro zero
      -- A value of zero would leave nothing but the digit zero.
      obtain ⟨place, behind⟩ := Nat.add_eq_zero_iff.mp zero
      rw [behind, fraction_digits_zero] at written
      subst written
      have none : value = 0 := by simpa using place
      exact last (by rw [none]; rfl)

/-! Decimals of the same value -/

theorem fraction_digits_scale (more : Nat) (below : rest < 10 ^ scale) :
    fractionDigits (scale + more) (rest * 10 ^ more) = fractionDigits scale rest := by
  induction scale generalizing rest with
  | zero =>
      obtain rfl : rest = 0 := Nat.lt_one_iff.mp below
      rw [Nat.zero_mul, fraction_digits_zero, fraction_digits_zero]
  | succ scale ih =>
      have positive : 0 < 10 ^ more := ten_power_pos more
      have shifted := ih (Nat.mod_lt rest (ten_power_pos scale))
      rw [Nat.succ_add, fractionDigits, fractionDigits, Nat.pow_eq, Nat.pow_eq, Nat.pow_add,
        Nat.mul_div_mul_right _ _ positive, Nat.mul_mod_mul_right, shifted]
      simp only [Nat.mul_eq_zero, positive.ne', or_false]

theorem text_scale (digits scale more : Nat) :
    Decimal.text { digits := digits * 10 ^ more, scale := scale + more } =
      Decimal.text { digits, scale } := by
  have positive : 0 < 10 ^ more := ten_power_pos more
  have below : digits % 10 ^ scale < 10 ^ scale := Nat.mod_lt _ (ten_power_pos scale)
  simp only [Decimal.text, Nat.pow_eq, Nat.pow_add, Nat.mul_div_mul_right _ _ positive,
    Nat.mul_mod_mul_right, fraction_digits_scale more below]

/-- The text of a decimal depends on its value only. -/
theorem text_same {left right : Decimal}
    (same : left.digits * 10 ^ right.scale = right.digits * 10 ^ left.scale) :
    left.text = right.text := by
  have leftScaled := text_scale left.digits left.scale right.scale
  have rightScaled := text_scale right.digits right.scale left.scale
  rw [same, Nat.add_comm] at leftScaled
  exact leftScaled.symm.trans rightScaled

/-! The text of a decimal is canonical -/

def toRat (decimal : Decimal) : ℚ := decimal.digits / 10 ^ decimal.scale

theorem text_digits (decimal : Decimal) :
    CanonicalDigits decimal.scale (Nat.toDigits 10 (decimal.digits / Nat.pow 10 decimal.scale))
      (fractionDigits decimal.scale (decimal.digits % Nat.pow 10 decimal.scale)) := by
  have written := decimal.text_written
  have below := Nat.mod_lt decimal.digits (ten_power_pos decimal.scale)
  exact {
    wholeDigits := written.wholeDigits
    nonempty := written.nonempty
    leading := to_digits_leading
    fractionDigits := written.fractionDigits
    short := (fraction_digits_value below).1
    last := fraction_digits_last below }

theorem meant_text (decimal : Decimal) :
    meant (Nat.toDigits 10 (decimal.digits / Nat.pow 10 decimal.scale))
      (fractionDigits decimal.scale (decimal.digits % Nat.pow 10 decimal.scale)) =
      decimal.toRat := by
  obtain ⟨short, value⟩ := decimal.of_text_text
  rw [of_text_written decimal.text_written] at short value
  generalize Nat.toDigits 10 (decimal.digits / Nat.pow 10 decimal.scale) = whole at *
  generalize fractionDigits decimal.scale (decimal.digits % Nat.pow 10 decimal.scale) = fraction
    at *
  have positive (places : Nat) : (10 : ℚ) ^ places ≠ 0 := pow_ne_zero _ (by norm_num)
  rw [meant, toRat, div_eq_div_iff (positive _) (positive _), ← value, Nat.pow_eq]
  push_cast
  rw [mul_assoc, ← pow_add, Nat.sub_add_cancel short]

/-- Canonical digits are the text of the decimal that they mean. -/
theorem text_of_digits (canonical : CanonicalDigits places whole fraction) :
    Decimal.text { digits := Nat.ofDigitChars 10 (whole ++ fraction) 0, scale := fraction.length } =
      spelled whole fraction := by
  have below := digit_chars_lt canonical.fractionDigits
  have positive : 0 < 10 ^ fraction.length := ten_power_pos _
  simp only [Decimal.text, Nat.ofDigitChars_append]
  rw [Nat.ofDigitChars_eq_ofDigitChars_zero, Nat.pow_eq, Nat.mul_add_div positive,
    Nat.mul_add_mod, Nat.div_eq_of_lt below, Nat.mod_eq_of_lt below, Nat.add_zero,
    to_digits_value canonical.wholeDigits canonical.nonempty canonical.leading,
    fraction_digits_of_value canonical.fractionDigits canonical.last]
  rfl

end Decimal

theorem canonical_digits_unique {otherWhole otherFraction : List Char}
    (canonical : CanonicalDigits places whole fraction)
    (other : CanonicalDigits places otherWhole otherFraction)
    (same : meant whole fraction = meant otherWhole otherFraction) :
    spelled whole fraction = spelled otherWhole otherFraction := by
  have positive (places : Nat) : (10 : ℚ) ^ places ≠ 0 := pow_ne_zero _ (by norm_num)
  rw [meant, meant, div_eq_div_iff (positive _) (positive _)] at same
  rw [← Decimal.text_of_digits canonical, ← Decimal.text_of_digits other]
  exact Decimal.text_same (by exact_mod_cast same)

theorem meant_nonneg (whole fraction : List Char) : 0 ≤ meant whole fraction := by
  exact div_nonneg (Nat.cast_nonneg _) (pow_nonneg (by norm_num) _)

/-- A number has one canonical text. -/
theorem canonical_unique {other : List Char} {number : ℚ} (canonical : Canonical places text number)
    (otherCanonical : Canonical places other number) : text = other := by
  cases canonical with
  | @plain whole fraction digits =>
      generalize same : meant whole fraction = number at otherCanonical
      cases otherCanonical with
      | plain otherDigits => exact canonical_digits_unique digits otherDigits same
      | @minus otherWhole otherFraction _ nonzero =>
          have first := meant_nonneg whole fraction
          have second := (meant_nonneg otherWhole otherFraction).lt_of_ne nonzero.symm
          linarith
  | @minus whole fraction digits nonzero =>
      generalize same : -meant whole fraction = number at otherCanonical
      cases otherCanonical with
      | @plain otherWhole otherFraction _ =>
          have first := (meant_nonneg whole fraction).lt_of_ne nonzero.symm
          have second := meant_nonneg otherWhole otherFraction
          linarith
      | minus otherDigits =>
          rw [canonical_digits_unique digits otherDigits (neg_inj.mp same)]

end Calculator
