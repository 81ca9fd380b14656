import Calculator.Proofs.Nearest

/-!
# Arithmetic that loses nothing

An operation on doubles rounds a number that is exact before. Where the digits of that number
fit those of a double, nothing is left to round: the difference of neighbours, a product with
the distance between one and the next double, and every comparison are exact.
-/

namespace Calculator.Binary64

open Float.Model Float.Model.UnpackedFloat

/-- The place of the last digit that a double of so many quanta can have. -/
def finalPlace (quanta : Nat) : Nat := quanta.log2 - 52

/-- A double has room for all digits of a number of quanta. -/
def Representable (quanta : Nat) : Prop := 2 ^ finalPlace quanta ∣ quanta

instance (quanta : Nat) : Decidable (Representable quanta) :=
  inferInstanceAs (Decidable (2 ^ finalPlace quanta ∣ quanta))

def signOf (negative : Bool) : Sign := if negative then .negative else .positive

/-- Some quanta in the form in which the arithmetic takes a double apart. -/
def apart (sign : Sign) (quanta : Nat) : UnpackedFloat :=
  if nonzero : 0 < quanta / 2 ^ finalPlace quanta then
    .finite sign (quanta / 2 ^ finalPlace quanta) (finalPlace quanta - 1074) nonzero
  else .zero sign

variable {value left right : Float} {negative : Bool} {quanta other digits shift significand : Nat}
  {sign : Sign} {place : Int}

/-! Representable numbers -/

theorem representable_of (divides : 2 ^ shift ∣ quanta) (small : quanta < 2 ^ (shift + 53)) :
    Representable quanta := by
  refine (Nat.pow_dvd_pow 2 ?_).trans divides
  by_cases zero : quanta = 0
  · simp [finalPlace, zero]
  · have digits := (Nat.log2_lt zero).mpr small
    unfold finalPlace
    omega

theorem representable_small (small : quanta < 2 ^ 53) : Representable quanta :=
  @representable_of quanta 0 (Nat.one_dvd quanta) small

theorem representable_digits (representable : Representable quanta) (nonzero : quanta ≠ 0) :
    ∃ digits, quanta = 2 ^ finalPlace quanta * digits ∧ 0 < digits := by
  obtain ⟨digits, split⟩ := representable
  refine ⟨digits, split, Nat.pos_of_ne_zero fun zero => nonzero ?_⟩
  rw [split, zero, Nat.mul_zero]

theorem lt_final_place (quanta : Nat) : quanta < 2 ^ (finalPlace quanta + 53) := by
  refine Nat.lt_log2_self.trans_le (Nat.pow_le_pow_right Nat.two_pos ?_)
  unfold finalPlace
  omega

/-- The digits of a representable number fit a significand. -/
theorem significand_lt (split : quanta = 2 ^ finalPlace quanta * digits) :
    digits < 2 * implicitBit := by
  have above := lt_final_place quanta
  have limit : 2 * implicitBit = 2 ^ 53 := by decide
  generalize finalPlace quanta = place at split above
  rw [split, Nat.pow_add] at above
  rw [limit]
  exact Nat.lt_of_mul_lt_mul_left above

theorem log2_shift (nonzero : digits ≠ 0) (shift : Nat) :
    (digits * 2 ^ shift).log2 = digits.log2 + shift :=
  log2_mul_power nonzero shift

theorem final_place_shift (nonzero : digits ≠ 0) (shift : Nat)
    (full : shift ≠ 0 → 52 ≤ digits.log2) :
    finalPlace (digits * 2 ^ shift) = finalPlace digits + shift := by
  rw [finalPlace, finalPlace, log2_shift nonzero]
  omega

theorem representable_scale (representable : Representable quanta) (shift : Nat) :
    Representable (quanta * 2 ^ shift) := by
  by_cases zero : quanta = 0
  · rw [zero, Nat.zero_mul]
    exact ⟨0, rfl⟩
  · have within : finalPlace (quanta * 2 ^ shift) ≤ finalPlace quanta + shift := by
      rw [finalPlace, finalPlace, log2_shift zero]
      omega
    refine (Nat.pow_dvd_pow 2 within).trans ?_
    rw [Nat.pow_add]
    exact Nat.mul_dvd_mul_right representable _

theorem apart_zero (sign : Sign) : apart sign 0 = .zero sign := by
  simp [apart]

theorem apart_split (sign : Sign) (split : quanta = 2 ^ finalPlace quanta * digits)
    (positive : 0 < digits) :
    apart sign quanta = .finite sign digits (finalPlace quanta - 1074) positive := by
  have quotient : quanta / 2 ^ finalPlace quanta = digits :=
    Nat.div_eq_of_eq_mul_right (Nat.two_pow_pos _) split
  simp only [apart, quotient, positive, dite_true]

theorem apart_digits (sign : Sign) (positive : 0 < digits) (small : digits < 2 ^ 53)
    (full : shift ≠ 0 → 2 ^ 52 ≤ digits) :
    apart sign (digits * 2 ^ shift) = .finite sign digits (shift - 1074) positive := by
  have length : digits.log2 < 53 := (Nat.log2_lt positive.ne').mpr small
  have final : finalPlace (digits * 2 ^ shift) = shift := by
    rw [final_place_shift positive.ne' shift fun shifted =>
      (Nat.le_log2 positive.ne').mpr (full shifted), finalPlace]
    omega
  have split : digits * 2 ^ shift = 2 ^ finalPlace (digits * 2 ^ shift) * digits := by
    rw [final, Nat.mul_comm]
  rw [apart_split sign split positive, final]

/-! Doubles are representable -/

theorem sign_field (bits : UInt64) :
    Sign.ofBitVec (@unpackSign .binary64 bits.toBitVec) =
      signOf (decide (0x8000000000000000 ≤ bits.toNat)) := by
  have bound := bits.toNat_lt
  have value : (@unpackSign .binary64 bits.toBitVec).toNat = bits.toNat / 2 ^ 63 := by
    have low : bits.toNat / 9223372036854775808 ≤ 1 := by omega
    simpa [unpackSign, Nat.shiftRight_eq_div_pow] using low
  have zero : @unpackSign .binary64 bits.toBitVec = 0#1 ↔ bits.toNat / 2 ^ 63 = 0 := by
    rw [← value, BitVec.toNat_eq]
    rfl
  rw [Sign.ofBitVec, signOf]
  by_cases high : 0x8000000000000000 ≤ bits.toNat
  · rw [if_neg (mt zero.mp (by omega)), if_pos (decide_eq_true high)]
  · rw [if_pos (zero.mpr (by omega)), if_neg (by simpa using high)]

theorem leading_bit (bits : UInt64) :
    (1#1 ++ @unpackMantissa .binary64 bits.toBitVec).toNat =
      implicitBit + bits.toNat % implicitBit := by
  rw [BitVec.toNat_append, ← Nat.shiftLeft_add_eq_or_of_lt (BitVec.isLt _), mantissa_field]
  rfl

/-- A finite double is a representable number of quanta, and the arithmetic finds them. -/
theorem view_apart (finite : view value = .finite negative quanta) :
    Representable quanta ∧ unpacked value = apart (signOf negative) quanta := by
  have exponent := exponent_field value.toBits
  have small : value.toBits.toNat % implicitBit < implicitBit := Nat.mod_lt _ (by decide)
  simp only [view] at finite
  rw [unpacked, UnpackedFloat.unpack, sign_field]
  generalize decide (0x8000000000000000 ≤ value.toBits.toNat) = minus at *
  split at finite
  · split at finite <;> cases finite
  rename_i notLargest
  rw [if_neg (mt (exponent_largest_iff _).mp notLargest)]
  split at finite
  · rename_i lowest
    obtain ⟨rfl, rfl⟩ := View.finite.inj finite
    rw [if_pos ((exponent_zero_iff _).mpr lowest)]
    have fits : value.toBits.toNat % implicitBit < 2 ^ 53 := small.trans (by decide)
    refine ⟨representable_small fits, ?_⟩
    split
    · rename_i zero
      rw [(mantissa_zero_iff _).mp zero, apart_zero]
    · rename_i nonzero
      have positive := Nat.pos_of_ne_zero (mt (mantissa_zero_iff _).mpr nonzero)
      have taken := @apart_digits _ 0 (signOf minus) positive fits (absurd rfl)
      rw [Nat.pow_zero, Nat.mul_one] at taken
      rw [taken, UnpackedFloat.finite.injEq, exponent, mantissa_field, lowest]
      exact ⟨rfl, rfl, rfl⟩
  · rename_i normal
    obtain ⟨rfl, rfl⟩ := View.finite.inj finite
    rw [if_neg (mt (exponent_zero_iff _).mp normal)]
    have whole := leading_bit value.toBits
    have full : 2 ^ 52 ≤ implicitBit + value.toBits.toNat % implicitBit := Nat.le_add_right ..
    have fits : implicitBit + value.toBits.toNat % implicitBit < 2 ^ 53 := by
      simp only [implicitBit] at *
      omega
    have positive := (Nat.two_pow_pos 52).trans_le full
    generalize implicitBit + value.toBits.toNat % implicitBit = significand at *
    have taken := @apart_digits _ (value.toBits.toNat / implicitBit % 0x800 - 1) (signOf minus)
      positive fits fun _ => full
    refine ⟨representable_scale (representable_small fits) _, ?_⟩
    rw [Nat.pow_eq, taken, UnpackedFloat.finite.injEq, exponent, whole]
    refine ⟨rfl, rfl, ?_⟩
    simp only [Format.exponentBias]
    omega

/-! Every representable number is a double -/

/-- One above the quanta of the largest double. -/
def quantaLimit : Nat := 2 * implicitBit * Nat.pow 2 largestPlace

theorem view_lt (finite : view value = .finite negative quanta) : quanta < quantaLimit := by
  obtain ⟨significand, place, rfl, digits, within⟩ := view_quanta finite
  have largest := power_mono within
  have positive := power_pos Nat.two_pos place
  rw [quantaLimit]
  generalize Nat.pow 2 largestPlace = top at *
  exact Nat.mul_lt_mul_of_lt_of_le digits largest (positive.trans_le largest)

/-- The double nearest to a representable number is that number. -/
theorem nearest_exact {numerator denominator : Nat} (positive : 0 < denominator)
    (same : quanta * denominator = numerator * unit) (representable : Representable quanta)
    (fits : quanta < quantaLimit) :
    view (nearest numerator denominator) = .finite false quanta := by
  obtain ⟨digits, whole⟩ := representable
  have small : digits < 2 * implicitBit := significand_lt whole
  have closest := @nearest_quanta_closest numerator _ _ positive small (finalPlace quanta)
  have found : nearestQuanta numerator denominator = quanta := by
    rw [Nat.pow_eq, Nat.mul_comm digits, ← whole, same, Nat.dist_self, Nat.le_zero] at closest
    exact Nat.eq_of_mul_eq_mul_right positive ((Nat.eq_of_dist_eq_zero closest).trans same.symm)
  rw [← found] at fits ⊢
  exact nearest_view_quanta fits

theorem view_exists (negative : Bool) (representable : Representable quanta)
    (fits : quanta < quantaLimit) : ∃ value, view value = .finite negative quanta := by
  have found := nearest_exact unit_pos rfl representable fits
  cases negative with
  | false => exact ⟨_, found⟩
  | true => exact ⟨_, view_negate found⟩

/-- Packing keeps the quanta. -/
theorem packed_view (representable : Representable quanta) (fits : quanta < quantaLimit)
    (packed : value.toBits.toBitVec =
      UnpackedFloat.pack .binary64 (apart (signOf negative) quanta)) :
    view value = .finite negative quanta := by
  -- Some double has these quanta; the arithmetic takes it apart and packs it unchanged.
  obtain ⟨other, viewed⟩ := view_exists negative representable fits
  have bits : UnpackedFloat.pack .binary64 (unpacked other) = other.toBits.toBitVec :=
    pack_unpack_of_valid other.toModel.valid
  rw [← (view_apart viewed).2, bits] at packed
  rw [Float.toBits_inj.mp (UInt64.toBitVec_inj.mp packed), viewed]

/-! Rounding a representable number -/

theorem shift_exact (digits amount : Nat) :
    ExtendedMantissa.ofMantissaAndAccuracy (digits * 2 ^ amount) .exact >>> amount =
      ExtendedMantissa.ofMantissaAndAccuracy digits .exact := by
  induction amount generalizing digits with
  | zero => simp [HShiftRight.hShiftRight, Nat.repeat]
  | succ amount ih =>
      have step (extended : ExtendedMantissa) :
          extended >>> (amount + 1) = (extended >>> amount).shiftRightOne := rfl
      have zeros : digits * 2 ^ (amount + 1) = digits * 2 * 2 ^ amount := by
        rw [Nat.pow_succ, Nat.mul_right_comm, Nat.mul_assoc]
      rw [step, zeros, ih (digits * 2)]
      simp [ExtendedMantissa.ofMantissaAndAccuracy, ExtendedMantissa.shiftRightOne]

/-- Digits with zeros behind them are found again, if their place is the one to be rounded to. -/
theorem round_zeros (sign : Sign) (positive : 0 < digits) (amount : Nat)
    (target : Format.binary64.targetExponent (totalExponent digits place) = place) :
    roundWithAccuracy .binary64 sign (digits * 2 ^ amount) (place - amount) .exact =
      .finite sign digits place positive := by
  have total :
      totalExponent (digits * 2 ^ amount) (place - amount) = totalExponent digits place := by
    rw [totalExponent, totalExponent, log2_shift positive.ne']
    omega
  have dropped : (place - (place - amount)).toNat = amount := by omega
  have none (extended : ExtendedMantissa) : extended >>> 0 = extended := rfl
  simp only [roundWithAccuracy, shiftToTargetExponent, shiftToExponent, total, target, dropped,
    shift_exact]
  simp [ExtendedMantissa.ofMantissaAndAccuracy, ExtendedMantissa.roundedMantissa,
    ExtendedMantissa.accuracy, Accuracy.roundToNearestEven, target, none, positive.ne']

theorem target_final (split : quanta = 2 ^ finalPlace quanta * digits) (positive : 0 < digits) :
    Format.binary64.targetExponent (totalExponent digits (finalPlace quanta - 1074)) =
      finalPlace quanta - 1074 := by
  have length := log2_shift positive.ne' (finalPlace quanta)
  rw [Nat.mul_comm, ← split] at length
  rw [target_exponent]
  unfold finalPlace at *
  omega

/-- A representable number is kept by rounding. -/
theorem round_apart (sign : Sign) (positive : 0 < significand)
    (representable : Representable (significand * 2 ^ shift)) :
    UnpackedFloat.round .binary64 sign significand (shift - 1074) =
      apart sign (significand * 2 ^ shift) := by
  have length := log2_shift positive.ne' shift
  have nonzero := Nat.mul_pos positive (Nat.two_pow_pos shift)
  obtain ⟨digits, split, first⟩ := representable_digits representable nonzero.ne'
  have target : Format.binary64.targetExponent (totalExponent significand (shift - 1074)) =
      finalPlace (significand * 2 ^ shift) - 1074 := by
    rw [target_exponent]
    unfold finalPlace
    omega
  have kept := target_final split first
  rw [apart_split sign split first]
  generalize finalPlace (significand * 2 ^ shift) = final at *
  simp only [UnpackedFloat.round, target, decreaseExponent, Nat.shiftLeft_eq]
  -- Either zeros are added behind the digits first, or zeros behind them are dropped.
  rcases Nat.le_total final shift with down | up
  · have amount : ((shift : Int) - 1074 - (final - 1074)).toNat = shift - final := by omega
    have same : significand * 2 ^ (shift - final) = digits * 2 ^ 0 := by
      rw [← Nat.sub_add_cancel down, Nat.pow_add, ← Nat.mul_assoc,
        Nat.mul_comm (2 ^ final)] at split
      rw [Nat.pow_zero, Nat.mul_one]
      exact Nat.eq_of_mul_eq_mul_right (Nat.two_pow_pos final) split
    have place : (shift : Int) - 1074 - (shift - final : Nat) = final - 1074 - (0 : Nat) := by
      omega
    rw [amount, same, place]
    exact round_zeros sign first 0 kept
  · have amount : ((shift : Int) - 1074 - (final - 1074)).toNat = 0 := by omega
    have same : significand = digits * 2 ^ (final - shift) := by
      rw [← Nat.sub_add_cancel up, Nat.pow_add, Nat.mul_right_comm, Nat.mul_comm _ digits] at split
      exact Nat.eq_of_mul_eq_mul_right (Nat.two_pow_pos shift) split
    have place : (shift : Int) - 1074 - (0 : Nat) = final - 1074 - (final - shift : Nat) := by
      omega
    rw [amount, Nat.pow_zero, Nat.mul_one, place, same]
    exact round_zeros sign first (final - shift) kept

/-! Operations -/

theorem normalize_apart (difference : Int)
    (representable : Representable (difference.natAbs * 2 ^ shift)) :
    ∃ sign, UnpackedFloat.normalize .binary64 difference (shift - 1074) .positive =
      apart sign (difference.natAbs * 2 ^ shift) := by
  rcases Int.lt_trichotomy difference 0 with below | rfl | above
  · have compared : compare difference 0 = .lt := Int.compare_eq_lt.mpr below
    have size : (-difference).toNat = difference.natAbs := by omega
    simp only [UnpackedFloat.normalize, compared, size]
    exact ⟨_, round_apart _ (Int.natAbs_pos.mpr below.ne) representable⟩
  · exact ⟨.positive, by simp [UnpackedFloat.normalize, apart_zero]⟩
  · have compared : compare difference 0 = .gt := Int.compare_eq_gt.mpr above
    have size : difference.toNat = difference.natAbs := by omega
    simp only [UnpackedFloat.normalize, compared, size]
    exact ⟨_, round_apart _ (Int.natAbs_pos.mpr above.ne') representable⟩

theorem apply_dist (sign : Sign) (left right : Nat) :
    (sign.apply left - sign.apply right).natAbs = Nat.dist left right := by
  cases sign <;> simp only [Sign.apply, Nat.dist] <;> omega

/-- The digits of a number from a lower place on. -/
theorem decrease_exponent {low : Nat} (within : low ≤ shift) :
    (decreaseExponent digits (shift - 1074) (low - 1074)).1 * 2 ^ low = 2 ^ shift * digits := by
  have amount : ((shift : Int) - 1074 - (low - 1074)).toNat = shift - low := by omega
  simp only [decreaseExponent, amount, Nat.shiftLeft_eq]
  rw [Nat.mul_assoc, ← Nat.pow_add, Nat.sub_add_cancel within, Nat.mul_comm]

theorem sub_digits (sign : Sign) (leftWhole : Representable quanta) (leftNonzero : quanta ≠ 0)
    (rightWhole : Representable other) (rightNonzero : other ≠ 0)
    (representable : Representable (Nat.dist quanta other)) :
    ∃ found, UnpackedFloat.sub .binary64 (apart sign quanta) (apart sign other) =
      apart found (Nat.dist quanta other) := by
  obtain ⟨leftDigits, leftSplit, leftPositive⟩ := representable_digits leftWhole leftNonzero
  obtain ⟨rightDigits, rightSplit, rightPositive⟩ := representable_digits rightWhole rightNonzero
  rw [apart_split sign leftSplit leftPositive, apart_split sign rightSplit rightPositive]
  generalize finalPlace quanta = leftPlace at *
  generalize finalPlace other = rightPlace at *
  have lowest : min ((leftPlace : Int) - 1074) (rightPlace - 1074) =
      (min leftPlace rightPlace : Nat) - 1074 := by omega
  have leftLow := @decrease_exponent leftDigits _ _ (Nat.min_le_left leftPlace rightPlace)
  have rightLow := @decrease_exponent rightDigits _ _ (Nat.min_le_right leftPlace rightPlace)
  simp only [UnpackedFloat.sub, lowest]
  generalize min leftPlace rightPlace = low at *
  generalize (decreaseExponent leftDigits (leftPlace - 1074) (low - 1074)).1 = leftMantissa at *
  generalize (decreaseExponent rightDigits (rightPlace - 1074) (low - 1074)).1 = rightMantissa at *
  have distance : Nat.dist quanta other =
      (sign.apply leftMantissa - sign.apply rightMantissa).natAbs * 2 ^ low := by
    rw [leftSplit, rightSplit, ← leftLow, ← rightLow, Nat.dist_mul_right, apply_dist]
  rw [distance] at representable ⊢
  exact normalize_apart _ representable

/-- The difference of two numbers of one sign is exact where it is representable. -/
theorem sub_apart (sign : Sign) (leftWhole : Representable quanta)
    (rightWhole : Representable other) (representable : Representable (Nat.dist quanta other)) :
    ∃ found, UnpackedFloat.sub .binary64 (apart sign quanta) (apart sign other) =
      apart found (Nat.dist quanta other) := by
  by_cases rightZero : other = 0
  · subst rightZero
    rw [Nat.dist_zero_right, apart_zero]
    unfold apart
    split
    · exact ⟨sign, rfl⟩
    · cases sign
      · exact ⟨_, rfl⟩
      · exact ⟨_, rfl⟩
  by_cases leftZero : quanta = 0
  · subst leftZero
    obtain ⟨digits, split, positive⟩ := representable_digits rightWhole rightZero
    rw [Nat.dist_zero_left, apart_zero, apart_split sign split positive]
    exact ⟨-sign, (apart_split (-sign) split positive).symm⟩
  · exact sub_digits sign leftWhole leftZero rightWhole rightZero representable

theorem sub_view (leftFinite : view left = .finite negative quanta)
    (rightFinite : view right = .finite negative other)
    (representable : Representable (Nat.dist quanta other)) :
    ∃ sign, view (left - right) = .finite sign (Nat.dist quanta other) := by
  obtain ⟨leftWhole, leftApart⟩ := view_apart leftFinite
  obtain ⟨rightWhole, rightApart⟩ := view_apart rightFinite
  obtain ⟨sign, found⟩ := sub_apart (signOf negative) leftWhole rightWhole representable
  have fits : Nat.dist quanta other < quantaLimit := by
    have leftFits := view_lt leftFinite
    have rightFits := view_lt rightFinite
    unfold Nat.dist
    omega
  have packed : (left - right).toBits.toBitVec = UnpackedFloat.pack .binary64
      (UnpackedFloat.sub .binary64 (unpacked left) (unpacked right)) := rfl
  rw [leftApart, rightApart, found] at packed
  cases sign with
  | positive => exact ⟨false, packed_view representable fits packed⟩
  | negative => exact ⟨true, packed_view representable fits packed⟩

theorem abs_view (finite : view value = .finite negative quanta) :
    view value.abs = .finite false quanta := by
  obtain ⟨representable, taken⟩ := view_apart finite
  have packed : value.abs.toBits.toBitVec = UnpackedFloat.pack .binary64
      (unpacked value).abs := rfl
  have unsigned : (apart (signOf negative) quanta).abs = apart (signOf false) quanta := by
    unfold apart
    split <;> rfl
  rw [taken, unsigned] at packed
  exact packed_view representable (view_lt finite) packed

/-! Comparison -/

/-- A number whose last digit has a higher place is larger. -/
theorem less_of_place (less : finalPlace quanta < finalPlace other) : quanta < other := by
  unfold finalPlace at less
  have nonzero : other ≠ 0 := by
    rintro rfl
    simp at less
  calc quanta < 2 ^ (quanta.log2 + 1) := Nat.lt_log2_self
    _ ≤ 2 ^ other.log2 := Nat.pow_le_pow_right Nat.two_pos (by omega)
    _ ≤ other := Nat.log2_self_le nonzero

theorem compare_apart (leftWhole : Representable quanta) (rightWhole : Representable other) :
    (apart .positive quanta).compare (apart .positive other) = some (compare quanta other) := by
  by_cases leftZero : quanta = 0
  · subst leftZero
    by_cases rightZero : other = 0
    · rw [rightZero, apart_zero]
      rfl
    · obtain ⟨digits, split, positive⟩ := representable_digits rightWhole rightZero
      rw [apart_zero, apart_split _ split positive,
        Nat.compare_eq_lt.mpr (Nat.pos_of_ne_zero rightZero)]
      rfl
  obtain ⟨leftDigits, leftSplit, leftPositive⟩ := representable_digits leftWhole leftZero
  by_cases rightZero : other = 0
  · rw [rightZero, apart_zero, apart_split _ leftSplit leftPositive,
      Nat.compare_eq_gt.mpr (Nat.pos_of_ne_zero leftZero)]
    rfl
  obtain ⟨rightDigits, rightSplit, rightPositive⟩ := representable_digits rightWhole rightZero
  rw [apart_split _ leftSplit leftPositive, apart_split _ rightSplit rightPositive]
  simp only [UnpackedFloat.compare, Option.some.injEq]
  rcases Nat.lt_trichotomy (finalPlace quanta) (finalPlace other) with less | same | greater
  · rw [Int.compare_eq_lt.mpr (by omega), Nat.compare_eq_lt.mpr (less_of_place less)]
    rfl
  · rw [← same] at rightSplit ⊢
    generalize finalPlace quanta = place at leftSplit rightSplit
    have scaled : compare quanta other = compare leftDigits rightDigits := by
      rw [leftSplit, rightSplit, Nat.compare_eq_ite_lt, Nat.compare_eq_ite_lt]
      simp only [Nat.mul_lt_mul_left (Nat.two_pow_pos place)]
    rw [Int.compare_eq_eq.mpr rfl, scaled]
    rfl
  · rw [Int.compare_eq_gt.mpr (by omega), Nat.compare_eq_gt.mpr (less_of_place greater)]
    rfl

theorem le_view (leftFinite : view left = .finite false quanta)
    (rightFinite : view right = .finite false other) : left ≤ right ↔ quanta ≤ other := by
  obtain ⟨leftWhole, leftApart⟩ := view_apart leftFinite
  obtain ⟨rightWhole, rightApart⟩ := view_apart rightFinite
  have tested : left ≤ right ↔ (unpacked left).le (unpacked right) := decide_eq_true_iff
  have compared := compare_apart leftWhole rightWhole
  rw [tested, leftApart, rightApart, UnpackedFloat.le, signOf, if_neg Bool.false_ne_true, compared]
  exact Nat.isLE_compare

/-! Scaling by the distance from one to the next double -/

/-- The distance from one to the next double. -/
def epsilon : Float := Float.ofBits 0x3cb0000000000000

theorem epsilon_unpacked :
    unpacked epsilon = .finite .positive implicitBit (-104) (by decide) := rfl

theorem final_place_large (large : 2 ^ 104 ≤ quanta) : 52 ≤ finalPlace quanta := by
  have nonzero : quanta ≠ 0 := fun zero => by
    rw [zero] at large
    exact absurd large (by decide)
  have length := (Nat.le_log2 nonzero).mpr large
  unfold finalPlace
  omega

theorem large_multiple (representable : Representable quanta) (large : 2 ^ 104 ≤ quanta) :
    ∃ scaled, quanta = scaled * implicitBit := by
  obtain ⟨scaled, split⟩ :=
    (Nat.pow_dvd_pow 2 (final_place_large large)).trans representable
  exact ⟨scaled, split.trans (Nat.mul_comm _ _)⟩

theorem mul_epsilon_apart (representable : Representable (quanta * implicitBit))
    (large : 2 ^ 104 ≤ quanta * implicitBit) : Representable quanta ∧
      UnpackedFloat.mul .binary64 (.finite .positive implicitBit (-104) (by decide))
        (apart .positive (quanta * implicitBit)) = apart .positive quanta := by
  have bit : implicitBit = 2 ^ 52 := by decide
  have place := final_place_large large
  have nonzero : quanta * implicitBit ≠ 0 := fun zero => by
    rw [zero] at large
    exact absurd large (by decide)
  obtain ⟨digits, split, positive⟩ := representable_digits representable nonzero
  have final : finalPlace (quanta * implicitBit) = finalPlace quanta + 52 := by
    have length := log2_shift (Nat.ne_zero_of_mul_ne_zero_left nonzero) 52
    rw [← bit] at length
    unfold finalPlace at *
    omega
  have less : quanta = 2 ^ finalPlace quanta * digits := by
    rw [final, Nat.pow_add, Nat.mul_right_comm, ← bit] at split
    exact Nat.eq_of_mul_eq_mul_right (by decide) split
  refine ⟨⟨digits, less⟩, ?_⟩
  have kept := target_final less positive
  have product : implicitBit * digits = digits * 2 ^ 52 := by rw [bit, Nat.mul_comm]
  have exponent : -104 + (((finalPlace quanta + 52 : Nat) : Int) - 1074) =
      finalPlace quanta - 1074 - (52 : Nat) := by omega
  rw [apart_split _ split positive, apart_split _ less positive, final, UnpackedFloat.mul, product,
    exponent]
  exact round_zeros .positive positive 52 kept

theorem mul_epsilon_view (finite : view value = .finite false (quanta * implicitBit))
    (large : 2 ^ 104 ≤ quanta * implicitBit) : view (epsilon * value) = .finite false quanta := by
  obtain ⟨whole, taken⟩ := view_apart finite
  obtain ⟨representable, product⟩ := mul_epsilon_apart whole large
  have fits : quanta < quantaLimit :=
    (Nat.le_mul_of_pos_right quanta (by decide)).trans_lt (view_lt finite)
  have packed := product_bits epsilon value
  rw [taken, epsilon_unpacked, signOf, if_neg Bool.false_ne_true, product] at packed
  exact packed_view representable fits packed

end Calculator.Binary64
