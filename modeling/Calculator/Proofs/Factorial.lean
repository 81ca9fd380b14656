import Calculator.Evaluation
import Calculator.Proofs.Rational
import Calculator.Proofs.Exactness

/-!
# The factorial of a double

Three conversions lead from a double to its factorial, each with a limit of its own: a number
must be near a whole one, not be too large to be told from its neighbours, and have a factorial
that fits a word. In exact arithmetic all of this is one law about the nearest whole number.
-/

namespace Calculator

open Binary64
open scoped Nat

namespace Whole

/-- The nearest whole number, a half going away from zero. -/
def roundAway (value : Float) : Float :=
  match view value with
  | .finite negative quanta =>
      let magnitude := nearest (divideRounded .up quanta unit) 1
      if negative then negate magnitude else magnitude
  | _ => value

/-- The nearest whole number, if a test in the arithmetic of doubles finds it near enough. -/
def tolerated? (value : Float) : Option Float :=
  if isFinite value then
    if (value - roundAway value).abs ≤ epsilon * max value.abs 1 then some (roundAway value)
    else none
  else none

variable {value : Float} {number : ℚ} {negative : Bool} {quanta finest factor whole n : Nat}

/-! The nearest whole number -/

theorem up_bounds (quanta : Nat) (positive : 0 < factor) :
    2 * (divideRounded .up quanta factor * factor) ≤ 2 * quanta + factor ∧
      2 * quanta < 2 * (divideRounded .up quanta factor * factor) + factor := by
  have split := Nat.div_add_mod' quanta factor
  have small := Nat.mod_lt quanta positive
  simp only [divideRounded]
  generalize quanta / factor = quotient at split ⊢
  generalize quanta % factor = rest at split small ⊢
  have next := Nat.add_one_mul quotient factor
  split_ifs <;> omega

theorem up_zero (positive : 0 < factor) : divideRounded .up 0 factor = 0 := by
  have none := divide_rounded_exact .up 0 positive
  rwa [Nat.zero_mul] at none

/-- Zero is not nearer than the nearest whole number. -/
theorem up_near_zero (quanta : Nat) (positive : 0 < factor) :
    Nat.dist quanta (divideRounded .up quanta factor * factor) ≤ quanta := by
  have bounds := up_bounds quanta positive
  generalize divideRounded .up quanta factor = whole at *
  cases whole with
  | zero => rw [Nat.zero_mul, Nat.dist_zero_right]
  | succ whole =>
      rw [Nat.add_mul, Nat.one_mul] at bounds ⊢
      simp only [Nat.dist]
      omega

/-- A number without digits below the point is its own nearest whole number, and those of the
others are small. -/
theorem up_cases (isPower : factor = Nat.pow 2 finest) (representable : Representable quanta) :
    divideRounded .up quanta factor * factor = quanta ∨
      finalPlace quanta < finest ∧
        divideRounded .up quanta factor * factor < 2 ^ (finest + 53) := by
  rw [Nat.pow_eq] at isPower
  have positive : 0 < factor := isPower ▸ Nat.two_pow_pos finest
  -- Digits below the point leave room for fewer than 53 in front of it.
  rcases Nat.lt_or_ge (finalPlace quanta) finest with below | above
  · refine .inr ⟨below, ?_⟩
    have near := up_near_zero quanta positive
    have small : quanta < 2 ^ (finest + 52) :=
      (lt_final_place quanta).trans_le (Nat.pow_le_pow_right Nat.two_pos (by omega))
    have double : 2 ^ (finest + 53) = 2 * 2 ^ (finest + 52) := Nat.pow_succ'
    simp only [Nat.dist] at near
    omega
  · obtain ⟨whole, split⟩ := (Nat.pow_dvd_pow 2 above).trans representable
    rw [← isPower, Nat.mul_comm] at split
    rw [split, divide_rounded_exact .up whole positive]
    exact .inl rfl

theorem up_representable (isPower : factor = Nat.pow 2 finest)
    (representable : Representable quanta) :
    Representable (divideRounded .up quanta factor * factor) := by
  rcases up_cases isPower representable with same | ⟨-, small⟩
  · rwa [same]
  · exact representable_of (Dvd.intro_left _ (congrArg _ isPower.symm)) small

theorem distance_representable (isPower : factor = Nat.pow 2 finest)
    (representable : Representable quanta) :
    Representable (Nat.dist quanta (divideRounded .up quanta factor * factor)) := by
  have positive : 0 < factor := isPower ▸ power_pos Nat.two_pos finest
  rcases up_cases isPower representable with same | ⟨below, -⟩
  · rw [same, Nat.dist_self]
    exact representable_small (Nat.two_pow_pos 53)
  · have near := up_near_zero quanta positive
    have divides : 2 ^ finalPlace quanta ∣ divideRounded .up quanta factor * factor := by
      refine Dvd.dvd.mul_left ?_ _
      rw [isPower]
      exact Nat.pow_dvd_pow 2 below.le
    refine @representable_of _ (finalPlace quanta) ?_ ?_
    · exact (Nat.dvd_sub representable divides).add (Nat.dvd_sub divides representable)
    · exact near.trans_lt (lt_final_place quanta)

theorem power_fits {place : Nat} (within : place ≤ largestPlace) :
    2 ^ (place + 53) ≤ quantaLimit := by
  have largest := power_mono within
  have bit : 2 * implicitBit = 2 ^ 53 := by decide
  rw [quantaLimit, bit, Nat.pow_add, Nat.mul_comm]
  generalize Nat.pow 2 largestPlace = top at *
  exact Nat.mul_le_mul_left _ largest

/-- The quanta of the nearest whole number are not too many. -/
theorem up_fits (isPower : factor = Nat.pow 2 finest) (within : finest ≤ largestPlace)
    (representable : Representable quanta) (fits : quanta < quantaLimit) :
    divideRounded .up quanta factor * factor < quantaLimit := by
  rcases up_cases isPower representable with same | ⟨-, small⟩
  · rwa [same]
  · exact small.trans_le (power_fits within)

/-! The test in the arithmetic of doubles -/

theorem round_away_view (finite : view value = .finite negative quanta) :
    view (roundAway value) = .finite negative (divideRounded .up quanta unit * unit) := by
  have representable := (view_apart finite).1
  have whole := nearest_exact Nat.one_pos (Nat.mul_one _)
    (up_representable unit_power representable)
    (up_fits unit_power (by decide) representable (view_lt finite))
  simp only [roundAway, finite]
  cases negative with
  | false => exact whole
  | true => exact view_negate whole

theorem one_view : view 1 = .finite false unit := by decide +kernel

theorem max_view {left right : Float} {other : Nat} (leftFinite : view left = .finite false quanta)
    (rightFinite : view right = .finite false other) :
    view (max left right) = .finite false (max quanta other) := by
  have ordered := le_view leftFinite rightFinite
  have larger : max left right = if left ≤ right then right else left := rfl
  rw [larger]
  split
  · rename_i less
    rw [Nat.max_eq_right (ordered.mp less), rightFinite]
  · rename_i greater
    rw [Nat.max_eq_left (Nat.le_of_not_le (mt ordered.mpr greater)), leftFinite]

theorem unit_large {place : Nat} (within : place ≤ 1074) : 2 ^ place ≤ unit := by
  unfold unit
  generalize 1074 = finest at *
  exact power_mono within

/-- The subtraction, the scaling and the comparison of the test are all exact. -/
theorem tolerance_exact (finite : view value = .finite negative quanta) :
    (value - roundAway value).abs ≤ epsilon * max value.abs 1 ↔
      Nat.dist quanta (divideRounded .up quanta unit * unit) * implicitBit ≤ max quanta unit := by
  have representable := (view_apart finite).1
  obtain ⟨sign, difference⟩ := sub_view finite (round_away_view finite)
    (distance_representable unit_power representable)
  have distance := abs_view difference
  have size := max_view (abs_view finite) one_view
  have large : 2 ^ 104 ≤ max quanta unit := (unit_large (by decide)).trans (Nat.le_max_right _ _)
  obtain ⟨scaled, multiple⟩ := large_multiple (view_apart size).1 large
  rw [multiple] at size large ⊢
  rw [le_view distance (mul_epsilon_view size large), Nat.mul_le_mul_right_iff (by decide)]

theorem near_round (finite : view value = .finite negative quanta) : near? value =
    if Nat.dist quanta (divideRounded .up quanta unit * unit) * implicitBit ≤ max quanta unit then
      some (roundAway value)
    else none := by
  simp only [near?, roundAway, finite, Nat.dist]

/-- The test in the arithmetic of doubles loses nothing to rounding. -/
theorem tolerated_near (value : Float) : tolerated? value = near? value := by
  cases viewed : view value with
  | infinite negative => simp [tolerated?, near?, isFinite, viewed]
  | undefined => simp [tolerated?, near?, isFinite, viewed]
  | finite negative quanta =>
      rw [near_round viewed]
      simp only [tolerated?, isFinite, viewed, if_true, tolerance_exact viewed]

/-! The test in exact arithmetic -/

theorem round_of_quanta (quanta : Nat) :
    round (ofQuanta quanta) = (divideRounded .up quanta unit : Nat) := by
  have bounds := up_bounds quanta unit_pos
  have positive := unit_rat_pos
  rw [round_eq, Int.floor_eq_iff, ofQuanta, Int.cast_natCast]
  generalize divideRounded .up quanta unit = whole at *
  generalize unit = factor at *
  have low : 2 * ((whole : ℚ) * factor) ≤ 2 * quanta + factor := by exact_mod_cast bounds.1
  have high : 2 * (quanta : ℚ) < 2 * (whole * factor) + factor := by exact_mod_cast bounds.2
  have half : (quanta : ℚ) / factor + 1 / 2 = (2 * quanta + factor) / (2 * factor) := by
    field_simp
  rw [half, le_div_iff₀ (by linarith), div_lt_iff₀ (by linarith)]
  constructor <;> linarith

/-- The test of the quanta is that of the numbers. -/
theorem near_exact (quanta : Nat) :
    Nat.dist quanta (divideRounded .up quanta unit * unit) * implicitBit ≤ max quanta unit ↔
      |ofQuanta quanta - round (ofQuanta quanta)| ≤ 1 / 2 ^ 52 * max 1 (ofQuanta quanta) := by
  have bit : ((implicitBit : Nat) : ℚ) = 2 ^ 52 := by
    rw [show implicitBit = 2 ^ 52 by decide]
    norm_num
  have one : ofQuanta unit = 1 := by
    have whole := of_quanta_whole 1
    rwa [Nat.one_mul, Nat.cast_one] at whole
  have larger : ofQuanta (max quanta unit) = max 1 (ofQuanta quanta) := by
    rcases Nat.le_total quanta unit with below | above
    · rw [Nat.max_eq_right below, one, max_eq_left (one ▸ of_quanta_le.mpr below)]
    · rw [Nat.max_eq_left above, max_eq_right (one ▸ of_quanta_le.mpr above)]
  rw [round_of_quanta, Int.cast_natCast, ← of_quanta_whole, ← of_quanta_dist, ← larger,
    ← of_quanta_le, of_quanta_mul, bit, one_div, inv_mul_eq_div, le_div_iff₀ (by norm_num)]

/-! Conversions -/

/-- A number that is converted is not truncated. -/
theorem natural_exact (found : natural? value = some n) : number? value = some (n : ℚ) := by
  simp only [natural?] at found
  split at found
  · rename_i negative quanta finite
    split at found
    · cases found
    · rename_i accepted
      obtain rfl := Option.some.inj found
      simp only [Bool.or_eq_true, Bool.and_eq_true, decide_eq_true_eq, not_or, not_and,
        ne_eq, not_not] at accepted
      obtain ⟨⟨unsigned, -⟩, whole⟩ := accepted
      have split := (Nat.div_mul_cancel (Nat.dvd_of_mod_eq_zero whole)).symm
      rw [number_view finite, with_sign_unsigned unsigned]
      generalize quanta / unit = quotient at split ⊢
      rw [split, of_quanta_whole]
  · cases found

theorem natural_whole (finite : view value = .finite negative (whole * unit))
    (unsigned : negative → whole = 0) :
    natural? value = if whole ≤ largestSafe then some whole else none := by
  have positive := unit_pos
  simp only [natural?, finite]
  generalize unit = factor at *
  have noSign : (negative && decide (whole * factor ≠ 0)) = false := by
    cases negative with
    | false => rfl
    | true => simp [unsigned rfl]
  simp only [noSign, Bool.false_or, Nat.mul_mod_left, ne_eq, not_true_eq_false, decide_false,
    Bool.or_false, decide_eq_true_eq, Nat.mul_div_cancel _ positive,
    Nat.mul_lt_mul_right positive, ← Nat.not_le, ite_not]

/-- The product is that of all factors up to the last, if it fits a word. -/
theorem multiply_up (last factor product : Nat) (reached : product = (factor - 1)!)
    (within : factor ≤ last + 1) (positive : 0 < factor) (fits : product ≤ wordLimit) :
    multiplyUp last factor product = if last ! ≤ wordLimit then some last ! else none := by
  fun_induction multiplyUp last factor product with
  | case1 factor product past =>
      obtain rfl : factor = last + 1 := by omega
      rw [Nat.add_sub_cancel] at reached
      rw [← reached, if_pos fits]
  | case2 factor product next exceeded =>
      have larger := (Nat.div_lt_iff_lt_mul positive).mp exceeded
      have below : factor ! ≤ last ! := Nat.factorial_le (Nat.le_of_not_lt next)
      rw [reached, Nat.mul_comm, Nat.mul_factorial_pred positive.ne'] at larger
      rw [if_neg (larger.trans_le below).not_ge]
  | case3 factor product next room ih =>
      have fitting := (Nat.le_div_iff_mul_le positive).mp (Nat.le_of_not_lt room)
      have product' : product * factor = factor ! := by
        rw [reached, Nat.mul_comm, Nat.mul_factorial_pred positive.ne']
      exact ih product' (by omega) (Nat.succ_pos _) fitting

theorem factorial_checked (n : Nat) :
    factorial? n = if n ! ≤ wordLimit then some n ! else none := by
  cases n with
  | zero =>
      rw [factorial?, multiplyUp, if_pos (by decide)]
      rfl
  | succ n => exact multiply_up (n + 1) 2 1 rfl (by omega) Nat.two_pos (by decide)

/-- The factorials that fit a word are those up to 20. -/
theorem factorial_fits_iff (n : Nat) : n ! ≤ wordLimit ↔ n ≤ 20 := by
  have fits : 20 ! ≤ wordLimit := by decide +kernel
  have exceeds : wordLimit < 21 ! := by decide +kernel
  constructor
  · intro within
    by_contra above
    have larger : 21 ! ≤ n ! := Nat.factorial_le (by omega)
    omega
  · exact fun below => (Nat.factorial_le below).trans fits

theorem units_representable (representable : Representable whole) :
    Representable (whole * unit) := by
  unfold unit
  generalize 1074 = finest
  exact representable_scale representable finest

theorem units_fit (small : whole < 2 ^ 64) : whole * unit < quantaLimit := by
  have within : 1074 + 11 ≤ largestPlace := by decide
  unfold unit
  generalize 1074 = finest at *
  have limit := power_fits within
  have split : 2 ^ (finest + 11 + 53) = 2 ^ 64 * 2 ^ finest := by
    rw [← Nat.pow_add]
    congr 1
    omega
  exact (Nat.mul_lt_mul_of_pos_right small (Nat.two_pow_pos finest)).trans_le (split ▸ limit)

/-- The factorials that fit a word are exact as doubles. -/
theorem factorial_rounds_exactly (small : n ≤ 20) : number? (nearest n ! 1) = some (n ! : ℚ) := by
  have all : ∀ n ≤ 20, Representable n ! ∧ n ! < 2 ^ 64 := by decide +kernel
  obtain ⟨representable, word⟩ := all n small
  have found := nearest_exact Nat.one_pos (Nat.mul_one _) (units_representable representable)
    (units_fit word)
  rw [number_view found, withSign, if_neg Bool.false_ne_true, of_quanta_whole]

/-- The number that is multiplied up to, if it is not too large to be told from others. -/
theorem natural_round (finite : view value = .finite negative quanta)
    (unsigned : negative → quanta = 0) : (natural? (roundAway value)).bind factorial? =
      if divideRounded .up quanta unit ≤ 20 then some (divideRounded .up quanta unit)!
      else none := by
  have zero : negative → divideRounded .up quanta unit = 0 := by
    intro minus
    rw [unsigned minus]
    exact up_zero unit_pos
  rw [natural_whole (round_away_view finite) zero]
  generalize divideRounded .up quanta unit = n
  by_cases small : n ≤ 20
  · have safe : n ≤ largestSafe := small.trans (by decide)
    rw [if_pos safe, if_pos small, Option.bind_some, factorial_checked,
      if_pos ((factorial_fits_iff n).mpr small)]
  · rw [if_neg small]
    split
    · rw [Option.bind_some, factorial_checked, if_neg (mt (factorial_fits_iff n).mp small)]
    · rfl

end Whole

variable {value : Float} {number : ℚ}

theorem factorial_undefined (undefined : number? value = none) :
    ∃ fault, UnaryOperator.factorial.apply value = .error (.domain fault) := by
  have notNear : Whole.near? value = none := by
    rcases number_none_iff.mp undefined with ⟨negative, infinite⟩ | undefined
    · rw [Whole.near?, infinite]
    · rw [Whole.near?, undefined]
  rw [UnaryOperator.apply, factorialValue, notNear]
  split
  · exact ⟨_, rfl⟩
  · exact ⟨_, rfl⟩

theorem factorial_negative (known : number? value = some number) (negative : number < 0) :
    UnaryOperator.factorial.apply value = .error (.domain (.negativeFactorial value)) := by
  rw [UnaryOperator.apply, factorialValue, if_pos ((below_zero_iff known).mpr negative)]

/-- From zero on, the factorial is decided by the nearest whole number. -/
theorem factorial_from_zero (known : number? value = some number) (nonnegative : 0 ≤ number) :
    ∃ n : ℕ, round number = n ∧ UnaryOperator.factorial.apply value =
      if |number - round number| ≤ 1 / 2 ^ 52 * max 1 number then
        if n ≤ 20 then .ok (nearest n ! 1) else .error .overflow
      else .error (.domain (.fractionalFactorial value)) := by
  have notBelow := mt (below_zero_iff known).mp nonnegative.not_gt
  obtain ⟨negative, quanta, finite, rfl, unsigned⟩ := magnitude_of_number known nonnegative
  refine ⟨_, Whole.round_of_quanta quanta, ?_⟩
  simp only [UnaryOperator.apply, factorialValue, if_neg notBelow, Whole.near_round finite,
    Whole.near_exact quanta]
  by_cases near : |ofQuanta quanta - round (ofQuanta quanta)| ≤ 1 / 2 ^ 52 * max 1 (ofQuanta quanta)
  · simp only [if_pos near, Whole.natural_round finite unsigned]
    split_ifs <;> rfl
  · simp only [if_neg near]

theorem tolerance_of_number (known : number? value = some number) (nonnegative : 0 ≤ number) :
    (value - Whole.roundAway value).abs ≤ epsilon * max value.abs 1 ↔
      |number - round number| ≤ 1 / 2 ^ 52 * max 1 number := by
  obtain ⟨negative, quanta, finite, rfl, -⟩ := magnitude_of_number known nonnegative
  exact (Whole.tolerance_exact finite).trans (Whole.near_exact quanta)

/-- The factorial is a matter of the exact number alone. It is defined for numbers from zero on
that are whole within tolerance, and its value is exact up to 20; above, it overflows. The test
for whole numbers is that of exact arithmetic although doubles are subtracted, scaled and
compared in it, and no number that is converted is truncated. -/
theorem factorial_in_exact_arithmetic (value : Float) :
    (number? value = none →
      ∃ fault, UnaryOperator.factorial.apply value = .error (.domain fault)) ∧
    (∀ number, number? value = some number →
      (number < 0 →
        UnaryOperator.factorial.apply value = .error (.domain (.negativeFactorial value))) ∧
      (0 ≤ number →
        ((value - Whole.roundAway value).abs ≤ epsilon * max value.abs 1 ↔
          |number - round number| ≤ 1 / 2 ^ 52 * max 1 number) ∧
        (1 / 2 ^ 52 * max 1 number < |number - round number| →
          UnaryOperator.factorial.apply value = .error (.domain (.fractionalFactorial value))) ∧
        (|number - round number| ≤ 1 / 2 ^ 52 * max 1 number →
          ∃ n : ℕ, round number = n ∧
            (n ≤ 20 → ∃ result, UnaryOperator.factorial.apply value = .ok result ∧
              number? result = some (n ! : ℚ)) ∧
            (21 ≤ n → UnaryOperator.factorial.apply value = .error .overflow)))) ∧
    Whole.tolerated? value = Whole.near? value ∧
    ∀ n, Whole.natural? value = some n → number? value = some (n : ℚ) := by
  refine ⟨factorial_undefined,
    fun number known => ⟨factorial_negative known, fun nonnegative => ?_⟩,
    Whole.tolerated_near value, fun n => Whole.natural_exact⟩
  obtain ⟨n, rounded, outcome⟩ := factorial_from_zero known nonnegative
  refine ⟨tolerance_of_number known nonnegative, fun far => ?_, fun near => ⟨n, rounded, ?_, ?_⟩⟩
  · rwa [if_neg far.not_ge] at outcome
  · intro small
    rw [if_pos near, if_pos small] at outcome
    exact ⟨_, outcome, Whole.factorial_rounds_exactly small⟩
  · intro large
    rwa [if_pos near, if_neg (by omega)] at outcome

/-- The double after three counts as three. -/
theorem factorial_in_exact_arithmetic_after_three :
    number? (Float.ofBits 0x4008000000000001) = some (3 + 1 / 2 ^ 51) ∧
      ∃ result, UnaryOperator.factorial.apply (Float.ofBits 0x4008000000000001) = .ok result ∧
        number? result = some 6 := by
  have finite : view (Float.ofBits 0x4008000000000001) =
      .finite false ((3 * 2 ^ 51 + 1) * 2 ^ 1023) := by decide +kernel
  have scaled : (3 * 2 ^ 51 + 1) * 2 ^ 1023 * 2 ^ 51 = (3 * 2 ^ 51 + 1) * unit := by decide +kernel
  have magnitude : ofQuanta ((3 * 2 ^ 51 + 1) * 2 ^ 1023) * (2 ^ 51 : Nat) =
      (3 * 2 ^ 51 + 1 : Nat) := by
    rw [← of_quanta_mul, scaled, of_quanta_whole]
  have known : number? (Float.ofBits 0x4008000000000001) = some (3 + 1 / 2 ^ 51) := by
    rw [number_view finite, withSign, if_neg Bool.false_ne_true,
      eq_div_of_mul_eq (by norm_num) magnitude]
    norm_num
  have rounded : round (3 + 1 / 2 ^ 51 : ℚ) = 3 := by
    rw [round_eq, Int.floor_eq_iff]
    norm_num
  obtain ⟨-, -, outcome⟩ := ((factorial_in_exact_arithmetic _).2.1 _ known).2 (by norm_num)
  obtain ⟨n, whole, small, -⟩ := outcome (by rw [rounded]; norm_num [abs_of_pos])
  obtain rfl : n = 3 := by
    rw [rounded] at whole
    exact_mod_cast whole.symm
  exact ⟨known, small (by decide)⟩

end Calculator
