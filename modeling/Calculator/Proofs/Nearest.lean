import Calculator.Proofs.Arithmetic

/-!
# The double nearest to a fraction

A fraction is rounded to a double by rounding its quanta to a multiple of a power of two.
No finite double is closer to it: the doubles between two multiples are all smaller than a
multiple that the fraction has passed.
-/

namespace Calculator

/-- The number nearest to a fraction, and the even one if two are equally near. -/
structure Rounds (numerator denominator whole : Nat) : Prop where
  near : 2 * Nat.dist (whole * denominator) numerator ≤ denominator
  even : 2 * Nat.dist (whole * denominator) numerator = denominator → whole % 2 = 0

section Rounding

variable {numerator denominator whole other : Nat}

theorem divide_rounded_rounds (numerator : Nat) (positive : 0 < denominator) :
    Rounds numerator denominator (divideRounded .even numerator denominator) := by
  have split := Nat.div_add_mod' numerator denominator
  have small := Nat.mod_lt numerator positive
  simp only [divideRounded]
  generalize numerator / denominator = quotient at split ⊢
  generalize numerator % denominator = rest at split small ⊢
  split
  · constructor <;> simp only [Nat.dist] <;> omega
  split
  · constructor <;> simp only [Nat.dist, Nat.add_mul, Nat.one_mul] <;> omega
  -- Exactly half: the quotient is kept if it is even and raised if it is odd.
  · rcases Nat.mod_two_eq_zero_or_one quotient with even | odd
    · rw [even, Nat.add_zero]
      constructor <;> simp only [Nat.dist] <;> omega
    · rw [odd]
      constructor <;> simp only [Nat.dist, Nat.add_mul, Nat.one_mul] <;> omega

theorem rounds_unique (positive : 0 < denominator) (first : Rounds numerator denominator whole)
    (second : Rounds numerator denominator other) : whole = other := by
  wlog ordered : whole ≤ other
  · exact (this positive second first (Nat.le_of_not_le ordered)).symm
  refine ordered.eq_or_lt.resolve_right fun less => ?_
  have apart : (whole + 1) * denominator ≤ other * denominator :=
    Nat.mul_le_mul_right denominator less
  have nearFirst := first.near
  have nearSecond := second.near
  have evenFirst := first.even
  have evenSecond := second.even
  rw [Nat.add_mul, Nat.one_mul] at apart
  simp only [Nat.dist] at nearFirst nearSecond evenFirst evenSecond
  -- Both lie half a step from the fraction, so they are neighbours, and not both even.
  have next : other * denominator = (whole + 1) * denominator := by
    rw [Nat.add_mul, Nat.one_mul]
    omega
  have neighbour := Nat.eq_of_mul_eq_mul_right positive next
  omega

theorem rounds_nearest (rounds : Rounds numerator denominator whole) (other : Nat) :
    Nat.dist (whole * denominator) numerator ≤ Nat.dist (other * denominator) numerator := by
  have near := rounds.near
  rcases Nat.lt_trichotomy whole other with less | rfl | greater
  · have apart : (whole + 1) * denominator ≤ other * denominator :=
      Nat.mul_le_mul_right denominator less
    rw [Nat.add_mul, Nat.one_mul] at apart
    simp only [Nat.dist] at *
    omega
  · exact Nat.le_refl _
  · have apart : (other + 1) * denominator ≤ whole * denominator :=
      Nat.mul_le_mul_right denominator greater
    rw [Nat.add_mul, Nat.one_mul] at apart
    simp only [Nat.dist] at *
    omega

/-- What is at least as near to the rounded number is rounded to it as well. -/
theorem rounds_closer {closer : Nat} (rounds : Rounds numerator denominator whole)
    (within : Nat.dist (whole * denominator) closer ≤
      Nat.dist (whole * denominator) numerator) : Rounds closer denominator whole where
  near := (Nat.mul_le_mul_left 2 within).trans rounds.near
  even tie := by
    have near := rounds.near
    exact rounds.even (by omega)

theorem divide_rounded_bounds (tie : Tie) (numerator denominator : Nat) :
    numerator / denominator ≤ divideRounded tie numerator denominator ∧
      divideRounded tie numerator denominator ≤ numerator / denominator + 1 := by
  cases tie <;> simp only [divideRounded] <;> split_ifs <;> omega

end Rounding

namespace Binary64

/-- The place of the last binary digit that is kept of a fraction. -/
def lastPlace (numerator denominator : Nat) : Nat :=
  (numerator * unit / denominator).log2 - 52

/-- The digits that are kept. -/
def keptDigits (numerator denominator : Nat) : Nat :=
  divideRounded .even (numerator * unit)
    (denominator * Nat.pow 2 (lastPlace numerator denominator))

/-- The quanta of the double nearest to a fraction, if it is not too large. -/
def nearestQuanta (numerator denominator : Nat) : Nat :=
  keptDigits numerator denominator * Nat.pow 2 (lastPlace numerator denominator)

/-- The last place of the largest doubles. -/
def largestPlace : Nat := 2045

variable {numerator denominator significand place quanta : Nat} {negative : Bool}
  {value : Float}

theorem power_mono {later : Nat} (ordered : place ≤ later) :
    Nat.pow 2 place ≤ Nat.pow 2 later :=
  Nat.pow_le_pow_right Nat.two_pos ordered

theorem power_of_later_place {later : Nat} (less : place < later) :
    2 * Nat.pow 2 place ≤ Nat.pow 2 later := by
  rw [Nat.mul_comm]
  exact power_mono less

theorem two_units_le : 2 * unit ≤ Nat.pow 2 largestPlace := by
  have later : 1074 < largestPlace := by decide
  unfold unit
  generalize 1074 = place at later ⊢
  exact power_of_later_place later

theorem carry_power (digits place : Nat) :
    digits * Nat.pow 2 (place + 1) = 2 * digits * Nat.pow 2 place := by
  rw [show Nat.pow 2 (place + 1) = Nat.pow 2 place * 2 from rfl, Nat.mul_comm 2, Nat.mul_assoc,
    Nat.mul_comm 2]

theorem kept_digits_bounds (numerator denominator : Nat) :
    numerator * unit / denominator / Nat.pow 2 (lastPlace numerator denominator) ≤
        keptDigits numerator denominator ∧
      keptDigits numerator denominator ≤
        numerator * unit / denominator / Nat.pow 2 (lastPlace numerator denominator) + 1 := by
  rw [Nat.div_div_eq_div_mul]
  exact divide_rounded_bounds ..

theorem kept_digits_le (numerator denominator : Nat) :
    keptDigits numerator denominator ≤ 2 * implicitBit := by
  have above := (kept_digits_bounds numerator denominator).2
  unfold lastPlace at above
  generalize numerator * unit / denominator = whole at above
  have digits : whole < 2 ^ (whole.log2 - 52) * (2 * implicitBit) := by
    have power : 2 ^ (whole.log2 - 52) * (2 * implicitBit) = 2 ^ (whole.log2 - 52 + 53) := by
      rw [Nat.pow_add]
      rfl
    rw [power]
    exact Nat.lt_log2_self.trans_le (Nat.pow_le_pow_right Nat.two_pos (by omega))
  have quotient := Nat.div_lt_of_lt_mul digits
  exact above.trans quotient

/-- A fraction that is shifted has passed the first number of its last place. -/
theorem passed_power (shifted : lastPlace numerator denominator ≠ 0) :
    implicitBit * Nat.pow 2 (lastPlace numerator denominator) ≤
      numerator * unit / denominator := by
  unfold lastPlace at *
  generalize numerator * unit / denominator = whole at *
  have nonzero : whole ≠ 0 := by
    rintro rfl
    simp at shifted
  have power : implicitBit * Nat.pow 2 (whole.log2 - 52) = 2 ^ (52 + (whole.log2 - 52)) := by
    rw [Nat.pow_add]
    rfl
  rw [power, show 52 + (whole.log2 - 52) = whole.log2 by omega]
  exact Nat.log2_self_le nonzero

theorem kept_digits_ge (shifted : lastPlace numerator denominator ≠ 0) :
    implicitBit ≤ keptDigits numerator denominator := by
  have passed := passed_power shifted
  have quotient := (Nat.le_div_iff_mul_le (power_pos Nat.two_pos _)).mpr passed
  exact quotient.trans (kept_digits_bounds numerator denominator).1

/-- No number of quanta that a double can have is closer to the fraction. -/
theorem nearest_quanta_closest (positive : 0 < denominator)
    (digits : significand < 2 * implicitBit) (place : Nat) :
    Nat.dist (nearestQuanta numerator denominator * denominator) (numerator * unit) ≤
      Nat.dist (significand * Nat.pow 2 place * denominator) (numerator * unit) := by
  have rounds := divide_rounded_rounds (numerator * unit)
    (Nat.mul_pos positive (power_pos Nat.two_pos (lastPlace numerator denominator)))
  have kept : nearestQuanta numerator denominator * denominator =
      keptDigits numerator denominator *
        (denominator * Nat.pow 2 (lastPlace numerator denominator)) := by
    rw [nearestQuanta, Nat.mul_assoc, Nat.mul_comm denominator]
  rw [kept]
  by_cases coarse : lastPlace numerator denominator ≤ place
  · have multiple : significand * Nat.pow 2 place * denominator =
        significand * Nat.pow 2 (place - lastPlace numerator denominator) *
          (denominator * Nat.pow 2 (lastPlace numerator denominator)) := by
      have power : Nat.pow 2 place = Nat.pow 2 (place - lastPlace numerator denominator) *
          Nat.pow 2 (lastPlace numerator denominator) := by
        rw [Nat.pow_eq, Nat.pow_eq, Nat.pow_eq, ← Nat.pow_add, Nat.sub_add_cancel coarse]
      rw [power]
      ring
    rw [multiple]
    exact rounds_nearest rounds _
  · -- The number lies below a power of two that the fraction has passed.
    refine (rounds_nearest rounds implicitBit).trans ?_
    have passed := (Nat.le_div_iff_mul_le positive).mp
      (passed_power (Nat.ne_zero_of_lt (Nat.lt_of_not_le coarse)))
    have power := power_of_later_place (Nat.lt_of_not_le coarse)
    have below : significand * Nat.pow 2 place * denominator ≤
        implicitBit * (denominator * Nat.pow 2 (lastPlace numerator denominator)) :=
      calc significand * Nat.pow 2 place * denominator
          ≤ 2 * implicitBit * Nat.pow 2 place * denominator := by gcongr
        _ = implicitBit * (denominator * (2 * Nat.pow 2 place)) := by ring
        _ ≤ _ := by gcongr
    have same : implicitBit * Nat.pow 2 (lastPlace numerator denominator) * denominator =
        implicitBit * (denominator * Nat.pow 2 (lastPlace numerator denominator)) := by ring
    rw [same] at passed
    simp only [Nat.dist]
    omega

/-- A finite double has at most 53 digits in a place that is not above the largest. -/
theorem view_quanta (finite : view value = .finite negative quanta) :
    ∃ significand place, quanta = significand * Nat.pow 2 place ∧
      significand < 2 * implicitBit ∧ place ≤ largestPlace := by
  simp only [view] at finite
  generalize value.toBits.toNat = bits at finite
  have small : bits % implicitBit < implicitBit := Nat.mod_lt _ (by decide)
  split at finite
  · split at finite <;> simp at finite
  split at finite
  · refine ⟨quanta, 0, (Nat.mul_one quanta).symm, ?_, Nat.zero_le _⟩
    obtain ⟨_, rfl⟩ := View.finite.inj finite
    omega
  · obtain ⟨_, rfl⟩ := View.finite.inj finite
    refine ⟨_, _, rfl, by omega, ?_⟩
    simp only [largestPlace]
    omega

/-! From bits to quanta -/

/-- A pattern that is not reserved for undefined values is kept. -/
theorem to_bits_of_bits (bits : UInt64) (proper : bits.toNat / implicitBit % 0x800 ≠ 0x7ff) :
    (Float.ofBits bits).toBits = bits := by
  have valid : Float.Model.Format.binary64.Valid bits.toBitVec :=
    ⟨fun largest _ => absurd ((exponent_largest_iff bits).mp largest) proper⟩
  have packed := Float.Model.UnpackedFloat.pack_unpack_of_valid valid
  simp only [Float.toBits, Float.ofBits, Float.Model.ofBits, Float.Model.pack, packed]

theorem xor_sign (bits : UInt64) (unsigned : bits.toNat < 2 ^ 63) :
    (bits ^^^ 0x8000000000000000).toNat = bits.toNat + 2 ^ 63 := by
  have sign : (0x8000000000000000 : UInt64).toNat = 2 ^ 63 := rfl
  rw [UInt64.toNat_xor, sign]
  have high : (bits.toNat ^^^ 2 ^ 63) / 2 ^ 63 = 1 := by
    rw [Nat.xor_div_two_pow, Nat.div_eq_of_lt unsigned]
    rfl
  have low : (bits.toNat ^^^ 2 ^ 63) % 2 ^ 63 = bits.toNat := by
    rw [Nat.xor_mod_two_pow, Nat.mod_eq_of_lt unsigned, Nat.mod_self, Nat.xor_zero]
  omega

theorem view_negate (finite : view value = .finite false quanta) :
    view (negate value) = .finite true quanta := by
  have unsigned : value.toBits.toNat < 2 ^ 63 := by
    simp only [view] at finite
    split_ifs at finite <;> simp_all
  have proper : value.toBits.toNat / implicitBit % 0x800 ≠ 0x7ff := by
    intro largest
    simp only [view, largest] at finite
    split_ifs at finite
  have flipped := xor_sign value.toBits unsigned
  have exponent : (value.toBits ^^^ 0x8000000000000000).toNat / implicitBit % 0x800 =
      value.toBits.toNat / implicitBit % 0x800 := by
    simp only [flipped, implicitBit]
    omega
  have fraction : (value.toBits ^^^ 0x8000000000000000).toNat % implicitBit =
      value.toBits.toNat % implicitBit := by
    simp only [flipped, implicitBit]
    omega
  have kept := to_bits_of_bits (value.toBits ^^^ 0x8000000000000000) (exponent ▸ proper)
  have signed : 0x8000000000000000 ≤ (value.toBits ^^^ 0x8000000000000000).toNat := by
    omega
  simp only [view, negate, kept, exponent, fraction, decide_eq_true signed, if_neg proper] at *
  split_ifs at finite ⊢ <;> simp_all

/-- The quanta that the bits of a finite double without a sign stand for. -/
def quantaOfBits (bits : Nat) : Nat :=
  if bits / implicitBit = 0 then bits
  else (implicitBit + bits % implicitBit) * Nat.pow 2 (bits / implicitBit - 1)

theorem view_of_bits {bits : Nat} (below : bits < infinityBits) :
    view (Float.ofBits (UInt64.ofNat bits)) = .finite false (quantaOfBits bits) := by
  have stored : (UInt64.ofNat bits).toNat = bits := by
    rw [UInt64.toNat_ofNat']
    simp only [infinityBits, implicitBit] at below
    omega
  have field : bits / implicitBit < 0x7ff := Nat.div_lt_of_lt_mul (Nat.mul_comm _ _ ▸ below)
  have whole : bits / implicitBit % 0x800 = bits / implicitBit :=
    Nat.mod_eq_of_lt (field.trans (by decide))
  have unsigned : ¬0x8000000000000000 ≤ bits := by
    simp only [infinityBits, implicitBit] at below
    omega
  rw [view, to_bits_of_bits _ (by rw [stored, whole]; exact field.ne)]
  simp only [stored, whole, if_neg field.ne, decide_eq_false unsigned, quantaOfBits]
  split
  · rename_i lowest
    rw [Nat.mod_eq_of_lt (Nat.lt_of_div_eq_zero (by decide) lowest)]
  · rfl

/-- Digits with their place are found again, also if they were rounded up to a power of two,
which carries into the place. -/
theorem quanta_of_packed {digits : Nat} (most : digits ≤ 2 * implicitBit)
    (least : place ≠ 0 → implicitBit ≤ digits) :
    quantaOfBits (place * implicitBit + digits) = digits * Nat.pow 2 place := by
  have positive : 0 < implicitBit := by decide
  rw [quantaOfBits, Nat.mul_comm place, Nat.mul_add_div positive, Nat.mul_add_mod]
  rcases Nat.lt_or_ge digits implicitBit with small | normal
  · obtain rfl : place = 0 := by
      by_contra shifted
      exact Nat.not_le_of_lt small (least shifted)
    rw [Nat.div_eq_of_lt small, if_pos rfl, Nat.mul_zero, Nat.zero_add]
    exact (Nat.mul_one digits).symm
  · rcases most.lt_or_eq with regular | rfl
    · have field : digits / implicitBit = 1 := by
        simp only [implicitBit] at *
        omega
      have fraction : implicitBit + digits % implicitBit = digits := by
        simp only [implicitBit] at *
        omega
      rw [field, fraction, if_neg (Nat.succ_ne_zero _), Nat.add_sub_cancel]
    · rw [Nat.mul_div_cancel _ positive, Nat.mul_mod_left, if_neg (Nat.succ_ne_zero _),
        Nat.add_zero, Nat.add_sub_assoc (by decide), carry_power]

theorem nearest_bits_fit (fits : nearestQuanta numerator denominator <
      2 * implicitBit * Nat.pow 2 largestPlace) :
    lastPlace numerator denominator * implicitBit + keptDigits numerator denominator <
      infinityBits := by
  have most := kept_digits_le numerator denominator
  have least := @kept_digits_ge numerator denominator
  unfold nearestQuanta at fits
  generalize lastPlace numerator denominator = place at *
  generalize keptDigits numerator denominator = digits at *
  simp only [infinityBits]
  rcases Nat.lt_trichotomy place largestPlace with small | rfl | large
  · simp only [implicitBit, largestPlace] at *
    omega
  · have few := Nat.lt_of_mul_lt_mul_right fits
    simp only [implicitBit, largestPlace] at *
    omega
  · have power := power_of_later_place large
    have size := Nat.mul_le_mul (least (Nat.ne_zero_of_lt large)) power
    generalize Nat.pow 2 largestPlace = largest at *
    simp only [implicitBit] at *
    omega

theorem nearest_view_quanta (fits : nearestQuanta numerator denominator <
      2 * implicitBit * Nat.pow 2 largestPlace) :
    view (nearest numerator denominator) =
      .finite false (nearestQuanta numerator denominator) := by
  have below := nearest_bits_fit fits
  have packed : nearestBits numerator denominator =
      lastPlace numerator denominator * implicitBit + keptDigits numerator denominator :=
    Nat.min_eq_left below.le
  rw [nearest, packed, view_of_bits below,
    quanta_of_packed (kept_digits_le numerator denominator) kept_digits_ge]
  rfl

end Binary64

end Calculator
