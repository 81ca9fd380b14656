import Calculator.Proofs.Binary64

/-!
# Finite and infinite results of the arithmetic

A product of finite doubles may leave the finite numbers, but it is never undefined. A
quotient by a number of several units cannot leave them, and it cannot come back to them.
-/

namespace Calculator.Binary64

open Float.Model Float.Model.UnpackedFloat

/-- A double as the arithmetic takes it apart. -/
def unpacked (value : Float) : UnpackedFloat :=
  UnpackedFloat.unpack .binary64 value.toBits.toBitVec

/-- Zero, or a number whose last binary digit has at most this place. -/
def LastPlaceLe (bound : Int) : UnpackedFloat → Prop
  | .zero _ => True
  | .finite _ _ place _ => place ≤ bound
  | .infinity _ | .notANumber => False

variable {value left right : Float} {found : UnpackedFloat} {sign : Sign} {significand : Nat}
  {place bound : Int}

/-! Both ways of taking a double apart agree on its kind. -/

theorem exponent_field (bits : UInt64) :
    (@unpackExponent .binary64 bits.toBitVec).toNat = bits.toNat / implicitBit % 0x800 := by
  simp [unpackExponent, Nat.shiftRight_eq_div_pow, implicitBit]

theorem mantissa_field (bits : UInt64) :
    (@unpackMantissa .binary64 bits.toBitVec).toNat = bits.toNat % implicitBit := by
  simp [unpackMantissa, implicitBit]

theorem exponent_largest_iff (bits : UInt64) :
    @unpackExponent .binary64 bits.toBitVec = -1#11 ↔
      bits.toNat / implicitBit % 0x800 = 0x7ff := by
  rw [BitVec.toNat_eq, exponent_field]
  rfl

theorem exponent_zero_iff (bits : UInt64) :
    @unpackExponent .binary64 bits.toBitVec = 0#11 ↔ bits.toNat / implicitBit % 0x800 = 0 := by
  rw [BitVec.toNat_eq, exponent_field]
  rfl

theorem mantissa_zero_iff (bits : UInt64) :
    @unpackMantissa .binary64 bits.toBitVec = 0#52 ↔ bits.toNat % implicitBit = 0 := by
  rw [BitVec.toNat_eq, mantissa_field]
  rfl

theorem finite_iff_exponent : isFinite value ↔
    @unpackExponent .binary64 value.toBits.toBitVec ≠ -1#11 := by
  rw [ne_eq, exponent_largest_iff]
  simp only [isFinite, view]
  split_ifs <;> simp_all

theorem infinite_iff_fields : (∃ negative, view value = .infinite negative) ↔
    @unpackExponent .binary64 value.toBits.toBitVec = -1#11 ∧
      @unpackMantissa .binary64 value.toBits.toBitVec = 0#52 := by
  rw [exponent_largest_iff, mantissa_zero_iff]
  simp only [view]
  split_ifs <;> simp_all

theorem finite_unpacked (finite : isFinite value) : (unpacked value).isFinite := by
  rw [finite_iff_exponent] at finite
  rw [unpacked, UnpackedFloat.unpack, if_neg finite]
  split_ifs <;> rfl

theorem infinite_unpacked {negative : Bool} (infinite : view value = .infinite negative) :
    ∃ sign, unpacked value = .infinity sign := by
  obtain ⟨largest, zero⟩ := infinite_iff_fields.mp ⟨negative, infinite⟩
  rw [unpacked, UnpackedFloat.unpack, if_pos largest, if_pos zero]
  exact ⟨_, rfl⟩

/-- The significand of a double has 53 digits and its last place is that of a double. -/
theorem unpacked_bounds {positive : 0 < significand}
    (split : unpacked value = .finite sign significand place positive) :
    significand.log2 ≤ 52 ∧ -1074 ≤ place ∧ place ≤ 971 := by
  have fits : (@unpackExponent .binary64 value.toBits.toBitVec).toNat < 2048 :=
    BitVec.isLt _
  rw [unpacked, UnpackedFloat.unpack] at split
  split_ifs at split with largest _ subnormal
  · obtain ⟨_, rfl, rfl⟩ := UnpackedFloat.finite.inj split
    have digits : _ < 52 := (Nat.log2_lt (Nat.ne_of_gt positive)).mpr (BitVec.isLt _)
    have lowest : (@unpackExponent .binary64 value.toBits.toBitVec).toNat = 0 :=
      congrArg BitVec.toNat subnormal
    simp only [Format.exponentBias]
    omega
  · obtain ⟨_, rfl, rfl⟩ := UnpackedFloat.finite.inj split
    have digits : _ < 53 := (Nat.log2_lt (Nat.ne_of_gt positive)).mpr (BitVec.isLt _)
    have other : (@unpackExponent .binary64 value.toBits.toBitVec).toNat ≠ 2047 :=
      fun same => largest (BitVec.eq_of_toNat_eq same)
    have normal : (@unpackExponent .binary64 value.toBits.toBitVec).toNat ≠ 0 :=
      fun same => subnormal (BitVec.eq_of_toNat_eq same)
    simp only [Format.exponentBias]
    omega

theorem exponent_stored {exponent : Nat} (below : ¬2 ^ Format.binary64.exponentBits ≤ exponent + 1) :
    BitVec.ofNat 11 exponent ≠ -1#11 := by
  intro same
  have largest := congrArg BitVec.toNat same
  simp at largest below
  omega

/-- A number that does not fit is packed as an infinite one. -/
theorem packed_kind (finite : found.isFinite)
    (packed : value.toBits.toBitVec = UnpackedFloat.pack .binary64 found) :
    isFinite value ∨ ∃ negative, view value = .infinite negative := by
  rw [finite_iff_exponent, infinite_iff_fields, packed]
  cases found with
  | infinity | notANumber => cases finite
  | zero sign => simp [UnpackedFloat.pack, packedZero]
  | finite sign significand place positive =>
      simp only [UnpackedFloat.pack]
      split
      · simp [packedInfinity]
      · rename_i fits
        split
        · exact .inl (by simpa using exponent_stored fits)
        · simp

theorem packed_finite (fits : LastPlaceLe 971 found)
    (packed : value.toBits.toBitVec = UnpackedFloat.pack .binary64 found) : isFinite value := by
  rw [finite_iff_exponent, packed]
  cases found with
  | infinity | notANumber => cases fits
  | zero sign => simp [UnpackedFloat.pack, packedZero]
  | finite sign significand place positive =>
      simp only [LastPlaceLe] at fits
      simp only [UnpackedFloat.pack]
      have below : ¬2 ^ Format.binary64.exponentBits ≤ (place + Format.binary64.exponentBias +
          Format.binary64.mantissaBitsWithoutImplicit).toNat + 1 := by
        simp only [Format.exponentBias]
        omega
      rw [if_neg below]
      split
      · simpa using exponent_stored below
      · simp

/-! Rounding -/

theorem shift_mantissa (extended : ExtendedMantissa) (amount : Nat) :
    (extended >>> amount).mantissa = extended.mantissa / 2 ^ amount := by
  induction amount with
  | zero => simp [HShiftRight.hShiftRight, Nat.repeat]
  | succ amount ih =>
      have step : (extended >>> (amount + 1)).mantissa = (extended >>> amount).mantissa / 2 := rfl
      rw [step, ih, Nat.div_div_eq_div_mul, Nat.pow_succ]

theorem rounded_mantissa_le (extended : ExtendedMantissa) :
    extended.roundedMantissa ≤ extended.mantissa + 1 := by
  obtain ⟨mantissa, half, sticky⟩ := extended
  cases half <;> cases sticky <;>
    simp [ExtendedMantissa.roundedMantissa, ExtendedMantissa.accuracy, Accuracy.roundToNearestEven]
  omega

theorem target_exponent (significand : Nat) (place : Int) :
    Format.binary64.targetExponent (totalExponent significand place) =
      max (significand.log2 + place - 52) (-1074) := by
  simp only [Format.targetExponent, totalExponent, Format.mantissaBits, Format.minExponent]
  omega

theorem log2_rounded_le {rounded amount : Nat}
    (next : rounded ≤ significand / 2 ^ amount + 1) :
    rounded.log2 ≤ significand.log2 + 1 - amount := by
  by_cases zero : rounded = 0
  · simp [zero]
  · have above : significand < 2 ^ (significand.log2 + 1) := Nat.lt_log2_self
    have quotient : significand / 2 ^ amount < 2 ^ (significand.log2 + 1 - amount) := by
      rw [Nat.div_lt_iff_lt_mul (Nat.two_pow_pos amount), ← Nat.pow_add]
      exact above.trans_le (Nat.pow_le_pow_right Nat.two_pos (by omega))
    refine Nat.le_of_lt_succ ((Nat.log2_lt zero).mpr ?_)
    rw [Nat.pow_succ]
    omega

theorem accuracy_mantissa (significand : Nat) (accuracy : Accuracy) :
    (ExtendedMantissa.ofMantissaAndAccuracy significand accuracy).mantissa = significand := by
  rcases accuracy with _ | order
  · rfl
  · cases order <;> rfl

theorem round_finite (sign : Sign) (significand : Nat) (place : Int) (accuracy : Accuracy) :
    (roundWithAccuracy .binary64 sign significand place accuracy).isFinite := by
  simp only [roundWithAccuracy]
  split <;> rfl

/-- The size of a number bounds the last place of what it is rounded to. -/
theorem round_last_place (sign : Sign) (accuracy : Accuracy) (lowest : -1074 ≤ bound)
    (placed : place ≤ bound) (size : significand.log2 + place ≤ bound + 51) :
    LastPlaceLe bound (roundWithAccuracy .binary64 sign significand place accuracy) := by
  simp only [roundWithAccuracy]
  split
  · trivial
  · simp only [LastPlaceLe, shiftToTargetExponent, shiftToExponent, target_exponent]
    generalize shifted : (max (significand.log2 + place - 52) (-1074) - place).toNat = amount
    have next := rounded_mantissa_le
      (ExtendedMantissa.ofMantissaAndAccuracy significand accuracy >>> amount)
    rw [shift_mantissa, accuracy_mantissa] at next
    have digits := log2_rounded_le next
    omega

/-! Products and quotients -/

theorem product_bits (left right : Float) : (left * right).toBits.toBitVec =
    UnpackedFloat.pack .binary64 (UnpackedFloat.mul .binary64 (unpacked left) (unpacked right)) :=
  rfl

theorem quotient_bits (left right : Float) : (left / right).toBits.toBitVec =
    UnpackedFloat.pack .binary64 (UnpackedFloat.div .binary64 (unpacked left) (unpacked right)) :=
  rfl

/-- A product of finite numbers is finite, or too large and infinite. -/
theorem product_kind (leftFinite : isFinite left) (rightFinite : isFinite right) :
    isFinite (left * right) ∨ ∃ negative, view (left * right) = .infinite negative := by
  refine packed_kind ?_ (product_bits left right)
  have leftNumber := finite_unpacked leftFinite
  have rightNumber := finite_unpacked rightFinite
  cases leftCase : unpacked left <;> cases rightCase : unpacked right <;>
    simp_all [UnpackedFloat.isFinite, UnpackedFloat.mul]
  exact round_finite _ _ _ _

/-- One half turn, which converts degrees: the divisor has a significand of 53 digits. -/
theorem half_turn_unpacked :
    unpacked 180 = .finite .positive 0x16800000000000 (-45) (by decide) := rfl

theorem div_core_last_place {accuracy : Accuracy} {quotient : Nat} {later : Int}
    (digits : significand.log2 ≤ 52) (lowest : -1074 ≤ place) (largest : place ≤ 971)
    (divided : divCore .binary64 significand place 0x16800000000000 (-45) =
      (quotient, later, accuracy)) :
    later ≤ 971 ∧ quotient.log2 + later ≤ 1022 := by
  have divisor : totalExponent 0x16800000000000 (-45) = 8 := by
    rw [totalExponent, (Nat.log2_eq_iff (by decide)).mpr (by decide : 2 ^ 52 ≤ _ ∧ _ < 2 ^ 53)]
    rfl
  simp only [divCore, divisor, Prod.mk.injEq] at divided
  obtain ⟨rfl, rfl, _⟩ := divided
  have target : Format.binary64.targetExponent (totalExponent significand place - 8) =
      max (significand.log2 + place - 60) (-1074) := by
    simp only [Format.targetExponent, totalExponent, Format.mantissaBits, Format.minExponent]
    omega
  rw [target]
  generalize shifted : (place - -45 - min (place - -45)
    (max (significand.log2 + place - 60) (-1074))).toNat = amount
  have below : (significand <<< amount) / 0x16800000000000 ≤ (significand <<< amount) / 2 ^ 52 + 1 :=
    (Nat.div_le_div_left (by decide) (by decide)).trans (Nat.le_succ _)
  have digits := log2_rounded_le below
  have whole : (significand <<< amount).log2 ≤ significand.log2 + amount := by
    by_cases zero : significand = 0
    · simp [zero]
    · rw [Nat.shiftLeft_eq]
      exact (log2_mul_power zero amount).le
  omega

theorem quotient_finite (finite : isFinite value) : isFinite (value / 180) := by
  refine packed_finite ?_ (quotient_bits value 180)
  have number := finite_unpacked finite
  rw [half_turn_unpacked]
  cases taken : unpacked value with
  | infinity | notANumber => simp [taken, UnpackedFloat.isFinite] at number
  | zero sign => trivial
  | finite sign significand place positive =>
      obtain ⟨digits, lowest, largest⟩ := unpacked_bounds taken
      cases divided : divCore .binary64 significand place 0x16800000000000 (-45) with
      | mk quotient others =>
          have bounds := div_core_last_place digits lowest largest divided
          simp only [UnpackedFloat.div, divided]
          exact round_last_place _ _ (by decide) bounds.1 bounds.2

theorem quotient_infinite {negative : Bool} (infinite : view value = .infinite negative) :
    ∃ negative, view (value / 180) = .infinite negative := by
  obtain ⟨sign, taken⟩ := infinite_unpacked infinite
  rw [infinite_iff_fields, quotient_bits, half_turn_unpacked, taken]
  simp [UnpackedFloat.div, UnpackedFloat.pack, packedInfinity]

end Calculator.Binary64
