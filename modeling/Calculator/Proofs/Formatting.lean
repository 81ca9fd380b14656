import Calculator.Proofs.Canonical
import Calculator.Proofs.Rational
import Calculator.Proofs.Redisplay

/-!
# Results are exact and canonical

The text of a result is the canonical decimal of the exact value of a double, rounded half to
even at the wanted place. It does not matter that zero and small whole numbers may be written
without decimals in the first place, and that other texts are written with all places and then
trimmed: these are other ways to the same text.
-/

namespace Calculator

/-- A whole number nearest to a number, and the even one if two are equally near. -/
structure NearestEven (number : ℚ) (whole : ℤ) : Prop where
  near : |number - whole| ≤ 1 / 2
  even : |number - whole| = 1 / 2 → Even whole

namespace Numeral

open Binary64

/-- The quanta to exactly so many decimals, a half going to the even digit. -/
def atPlaces (places quanta : Nat) : Decimal :=
  { digits := divideRounded .even (quanta * 10 ^ places) unit, scale := places }

/-- All decimals of a number below `10 ^ scale`. -/
def allDigits : Nat → Nat → List Char
  | 0, _ => []
  | scale + 1, rest => Nat.digitChar (rest / 10 ^ scale) :: allDigits scale (rest % 10 ^ scale)

/-- The text of a number with exactly so many decimals, the last rounded half to even. The sign
is kept where nothing but zeros are left. -/
def fixed (places : Nat) (value : Float) : List Char :=
  match view value with
  | .finite negative quanta =>
      let decimal := atPlaces places quanta
      let whole := Nat.toDigits 10 (decimal.digits / 10 ^ places)
      let fraction := allDigits places (decimal.digits % 10 ^ places)
      (if negative then ['-'] else []) ++ whole ++ if places = 0 then [] else '.' :: fraction
  | .infinite negative => (if negative then ['-'] else []) ++ "inf".toList
  | .undefined => "NaN".toList

/-- A whole number below `10 ^ 15` on both sides. -/
def isSmallWhole (value : Float) : Bool :=
  match view value with
  | .finite _ quanta => quanta % unit = 0 && quanta < 10 ^ 15 * unit
  | _ => false

/-- Removes the zeros at the end of a text with a point, and the point if it is the last. -/
def trimmed (text : List Char) : List Char :=
  if '.' ∈ text then (text.rdropWhile (· = '0')).rdropWhile (· = '.') else text

/-- A result by cases: zero, small whole numbers, and numbers whose decimals are trimmed. -/
def byCases (places : Nat) (value : Float) : String :=
  if isZero value then "0"
  else if isSmallWhole value then String.ofList (fixed 0 value)
  else if trimmed (fixed places value) = ['-', '0'] then "0"
  else String.ofList (trimmed (fixed places value))

variable {value : Float} {negative : Bool} {quanta places numerator whole : Nat} {number : ℚ}

/-! Rounding -/

theorem rounds_nearest_even (rounds : Rounds numerator unit whole) :
    NearestEven (ofQuanta numerator) whole := by
  have distance : |ofQuanta numerator - (whole : ℤ)| =
      (Nat.dist (whole * unit) numerator : Nat) / (unit : ℚ) := by
    rw [Int.cast_natCast, ← of_quanta_whole, ← of_quanta_dist, Nat.dist_comm, ofQuanta]
  have positive := unit_rat_pos
  constructor
  · rw [distance, div_le_div_iff₀ positive (by norm_num), one_mul, mul_comm]
    exact_mod_cast rounds.near
  · rw [distance, div_eq_div_iff positive.ne' (by norm_num), one_mul, mul_comm]
    intro half
    exact (Int.even_coe_nat whole).mpr (Nat.even_iff.mpr (rounds.even (by exact_mod_cast half)))

theorem nearest_even_neg {whole : ℤ} (nearest : NearestEven number whole) :
    NearestEven (-number) (-whole) := by
  have distance : |-number - (-whole : ℤ)| = |number - whole| := by
    rw [Int.cast_neg, neg_sub_neg, abs_sub_comm]
  exact ⟨distance ▸ nearest.near, fun half => (nearest.even (distance ▸ half)).neg⟩

theorem nearest_even_whole {whole other : ℤ} (nearest : NearestEven whole other) :
    other = whole := by
  have near := nearest.near
  rw [← Int.cast_sub, ← Int.cast_abs] at near
  have apart : |whole - other| < 1 := by
    have below : ((|whole - other| : ℤ) : ℚ) < 1 := near.trans_lt (by norm_num)
    exact_mod_cast below
  exact (sub_eq_zero.mp (Int.abs_lt_one_iff.mp apart)).symm

theorem at_places_nearest (places quanta : Nat) :
    NearestEven (ofQuanta quanta * 10 ^ places) (atPlaces places quanta).digits := by
  have nearest := rounds_nearest_even (divide_rounded_rounds (quanta * 10 ^ places) unit_pos)
  have power : ((10 ^ places : Nat) : ℚ) = 10 ^ places := by norm_num
  rw [of_quanta_mul, power] at nearest
  simpa only [atPlaces] using nearest

/-- From the place on at which a quantum ends, further places are zeros. -/
theorem divide_beyond {finest factor : Nat} (isPower : factor = Nat.pow 2 finest)
    (beyond : finest ≤ places) (quanta : Nat) :
    divideRounded .even (quanta * 10 ^ places) factor =
      quanta * 5 ^ finest * 10 ^ (places - finest) := by
  have split : quanta * 10 ^ places = quanta * 5 ^ finest * 10 ^ (places - finest) * factor := by
    have ten : 10 ^ places = 5 ^ finest * 2 ^ finest * 10 ^ (places - finest) := by
      rw [← Nat.mul_pow, ← Nat.pow_add, Nat.add_sub_cancel' beyond]
    rw [ten, isPower, Nat.pow_eq]
    ring
  rw [split, divide_rounded_exact .even _ (isPower ▸ Nat.two_pow_pos finest)]

/-- The decimal that is computed lacks no more than zeros at its end. -/
theorem at_places_scaled (places quanta : Nat) : ∃ more, atPlaces places quanta =
    { digits := (rounded places quanta).digits * 10 ^ more
      scale := (rounded places quanta).scale + more } := by
  rcases Nat.le_total places 1074 with few | many
  · exact ⟨0, by simp only [atPlaces, rounded, Nat.min_eq_left few, Nat.pow_eq, Nat.pow_zero,
      Nat.mul_one, Nat.add_zero]⟩
  · have wanted := divide_beyond unit_power many quanta
    have computed := divide_beyond unit_power (Nat.le_refl 1074) quanta
    refine ⟨places - 1074, ?_⟩
    simp only [atPlaces, rounded, Nat.min_eq_right many, Nat.pow_eq, wanted, computed,
      Nat.sub_self, Nat.pow_zero, Nat.mul_one, Nat.add_sub_cancel' many]

theorem rounded_text (places quanta : Nat) :
    (rounded places quanta).text = (atPlaces places quanta).text := by
  obtain ⟨more, scaled⟩ := at_places_scaled places quanta
  rw [scaled, Decimal.text_scale]

theorem rounded_zero_iff (places quanta : Nat) :
    (rounded places quanta).digits = 0 ↔ (atPlaces places quanta).digits = 0 := by
  obtain ⟨more, scaled⟩ := at_places_scaled places quanta
  have positive : 0 < 10 ^ more := Decimal.ten_power_pos more
  simp only [scaled, Nat.mul_eq_zero, positive.ne', or_false]

theorem result_at_places (finite : view value = .finite negative quanta) (places : Nat) :
    (result places value).toList =
      if negative && (atPlaces places quanta).digits ≠ 0 then
        '-' :: (atPlaces places quanta).text
      else (atPlaces places quanta).text := by
  rw [result_finite finite, rounded_text]
  simp only [ne_eq, rounded_zero_iff, Numeral.signed, String.toList_ofList]

/-! The text of a result is the canonical one -/

theorem digits_zero_text {decimal : Decimal} (zero : decimal.digits = 0) :
    decimal.text = ['0'] := by
  simp only [Decimal.text, zero, Nat.zero_div, Nat.zero_mod, Decimal.fraction_digits_zero]
  rfl

theorem to_rat_eq_zero {decimal : Decimal} : decimal.toRat = 0 ↔ decimal.digits = 0 := by
  have positive : (10 : ℚ) ^ decimal.scale ≠ 0 := pow_ne_zero _ (by norm_num)
  rw [Decimal.toRat, div_eq_zero_iff, or_iff_left positive, Nat.cast_eq_zero]

theorem text_plain (decimal : Decimal) : Canonical decimal.scale decimal.text decimal.toRat := by
  have plain := Canonical.plain decimal.text_digits
  rwa [Decimal.meant_text] at plain

theorem text_minus {decimal : Decimal} (nonzero : decimal.digits ≠ 0) :
    Canonical decimal.scale ('-' :: decimal.text) (-decimal.toRat) := by
  have minus := Canonical.minus decimal.text_digits
  rw [Decimal.meant_text] at minus
  exact minus (mt to_rat_eq_zero.mp nonzero)

theorem result_canonical (known : number? value = some number) (places : Nat) :
    ∃ whole : ℤ, NearestEven (number * 10 ^ places) whole ∧
      Canonical places (result places value).toList (whole / 10 ^ places) := by
  obtain ⟨negative, quanta, finite, rfl⟩ := view_of_number known
  have nearest := at_places_nearest places quanta
  have shown := result_at_places finite places
  have plain := text_plain (atPlaces places quanta)
  have minus := @text_minus (atPlaces places quanta)
  have scale : (atPlaces places quanta).scale = places := by simp only [atPlaces]
  simp only [Decimal.toRat, scale] at plain minus
  rw [shown]
  generalize atPlaces places quanta = decimal at *
  cases negative with
  | false => exact ⟨decimal.digits, nearest, by simpa using plain⟩
  | true =>
      refine ⟨-decimal.digits, by simpa [withSign] using nearest_even_neg nearest, ?_⟩
      rw [Int.cast_neg, Int.cast_natCast, neg_div]
      by_cases zero : decimal.digits = 0
      · simpa [zero] using plain
      · simpa [zero] using minus zero

/-! The other ways to the same text -/

theorem rdrop_while_append (drops : Char → Bool) (front back : List Char) :
    (front ++ back).rdropWhile drops =
      if (back.rdropWhile drops).isEmpty then front.rdropWhile drops
      else front ++ back.rdropWhile drops := by
  simp only [List.rdropWhile, List.reverse_append, List.dropWhile_append, List.isEmpty_reverse]
  split
  · rfl
  · rw [List.reverse_append, List.reverse_reverse]

/-- What is left of all decimals without the zeros at their end is what is written. -/
theorem all_digits_trimmed (scale : Nat) {rest : Nat} (below : rest < 10 ^ scale) :
    (allDigits scale rest).rdropWhile (· = '0') = Decimal.fractionDigits scale rest := by
  induction scale generalizing rest with
  | zero => rfl
  | succ scale ih =>
      have smaller : rest % 10 ^ scale < 10 ^ scale := Nat.mod_lt rest (Decimal.ten_power_pos scale)
      rw [allDigits, ← List.singleton_append, rdrop_while_append, ih smaller,
        Decimal.fractionDigits, Nat.pow_eq]
      -- A digit is kept if it is not zero or another one behind it is kept.
      cases behind : Decimal.fractionDigits scale (rest % 10 ^ scale) with
      | cons next others =>
          have nonzero : rest ≠ 0 := by
            rintro rfl
            rw [Nat.zero_mod, Decimal.fraction_digits_zero] at behind
            cases behind
          rw [if_neg nonzero]
          rfl
      | nil =>
          have divides := Decimal.fraction_digits_nil smaller behind
          have digit := Decimal.quotient_zero_iff divides
          by_cases zero : rest = 0
          · rw [if_pos zero, zero, Nat.zero_div]
            rfl
          · have kept : Nat.digitChar (rest / 10 ^ scale) ≠ '0' := by
              simpa [Nat.digitChar_eq_zero, digit] using zero
            rw [if_neg zero, if_pos (by rfl), List.rdropWhile_singleton,
              if_neg (by simpa using kept)]

theorem rdrop_while_absent {text : List Char} {mark : Char} (absent : mark ∉ text) :
    text.rdropWhile (· = mark) = text := by
  rw [List.rdropWhile_eq_self_iff]
  intro nonempty last
  exact absent (of_decide_eq_true last ▸ List.getLast_mem nonempty)

theorem point_absent {text : List Char} (digits : ∀ digit ∈ text, digit.isDigit) : '.' ∉ text :=
  fun member => absurd (digits '.' member) (by decide)

/-- The zeros that are trimmed are those behind the point only. -/
theorem trimmed_decimal {front : List Char} {places rest : Nat} (noPoint : '.' ∉ front)
    (below : rest < 10 ^ places) :
    trimmed (front ++ '.' :: allDigits places rest) =
      spelled front (Decimal.fractionDigits places rest) := by
  have absent := point_absent (Decimal.fraction_digits_are_digits below)
  have zeros : ('.' :: allDigits places rest).rdropWhile (· = '0') =
      '.' :: Decimal.fractionDigits places rest := by
    rw [← List.singleton_append, rdrop_while_append, all_digits_trimmed places below]
    cases Decimal.fractionDigits places rest <;> rfl
  rw [trimmed, if_pos (by simp), rdrop_while_append, zeros, spelled]
  cases fraction : Decimal.fractionDigits places rest with
  | nil => simpa using rdrop_while_absent noPoint
  | cons next others =>
      rw [fraction] at absent
      have point : ('.' :: next :: others).rdropWhile (· = '.') = '.' :: next :: others := by
        rw [← List.singleton_append, rdrop_while_append, rdrop_while_absent absent]
        rfl
      simp [rdrop_while_append, point]

theorem trimmed_fixed (finite : view value = .finite negative quanta) (places : Nat) :
    trimmed (fixed places value) =
      (if negative then ['-'] else []) ++ (atPlaces places quanta).text := by
  have written := (atPlaces places quanta).text_written
  have scale : (atPlaces places quanta).scale = places := by simp only [atPlaces]
  have whole := point_absent written.wholeDigits
  have front : '.' ∉ (if negative then ['-'] else []) ++
      Nat.toDigits 10 ((atPlaces places quanta).digits / 10 ^ places) := by
    rw [scale] at whole
    cases negative <;> simpa using whole
  simp only [fixed, finite, Decimal.text, scale]
  generalize atPlaces places quanta = decimal at *
  cases places with
  | zero =>
      simp only [if_true, List.append_nil]
      rw [trimmed, if_neg front]
      simp [Decimal.fractionDigits]
  | succ places =>
      have below := Nat.mod_lt decimal.digits (Decimal.ten_power_pos (places + 1))
      simp only [Nat.succ_ne_zero, if_false]
      rw [Nat.pow_eq] at below ⊢
      rw [trimmed_decimal front below, spelled, List.append_assoc]

theorem text_zero_iff (decimal : Decimal) : decimal.text = ['0'] ↔ decimal.digits = 0 := by
  refine ⟨fun zero => ?_, digits_zero_text⟩
  have read := decimal.of_text_text.2
  rw [zero] at read
  exact read.symm.trans (Nat.zero_mul _)

theorem at_places_whole (places whole : Nat) :
    atPlaces places (whole * unit) = { digits := whole * 10 ^ places, scale := places } := by
  have positive := unit_pos
  simp only [atPlaces]
  generalize unit = factor at *
  rw [Nat.mul_right_comm, divide_rounded_exact .even _ positive]

/-- The digits of a whole number stand alone, whatever places are wanted. -/
theorem whole_text (places whole : Nat) :
    (atPlaces places (whole * unit)).text = Nat.toDigits 10 whole := by
  have scaled := Decimal.text_scale whole 0 places
  rw [Nat.zero_add] at scaled
  rw [at_places_whole, scaled]
  simp [Decimal.text, Decimal.fractionDigits]

theorem fixed_whole {whole : Nat} (finite : view value = .finite negative (whole * unit)) :
    fixed 0 value = (if negative then ['-'] else []) ++ Nat.toDigits 10 whole := by
  simp only [fixed, finite, at_places_whole, if_true, List.append_nil, Nat.pow_zero, Nat.mul_one,
    Nat.div_one]

theorem small_whole (finite : view value = .finite negative quanta) (nonzero : quanta ≠ 0)
    (small : isSmallWhole value) (places : Nat) :
    fixed 0 value = if negative && (atPlaces places quanta).digits ≠ 0 then
        '-' :: (atPlaces places quanta).text
      else (atPlaces places quanta).text := by
  simp only [isSmallWhole, finite, Bool.and_eq_true, decide_eq_true_eq] at small
  have whole := (Nat.div_mul_cancel (Nat.dvd_of_mod_eq_zero small.1)).symm
  generalize quanta / unit = number at whole
  have digits : (atPlaces places quanta).digits ≠ 0 := by
    have factor := Nat.ne_of_gt (Decimal.ten_power_pos places)
    rw [whole, at_places_whole]
    exact Nat.mul_ne_zero (fun zero => nonzero (by rw [whole, zero, Nat.zero_mul])) factor
  rw [whole] at finite digits ⊢
  rw [fixed_whole finite, whole_text]
  cases negative <;> simp [digits]

theorem text_unsigned (decimal : Decimal) : decimal.text ≠ ['-', '0'] := by
  have written := decimal.text_written
  have digits := written.wholeDigits
  rw [written.split]
  cases whole : Nat.toDigits 10 (decimal.digits / Nat.pow 10 decimal.scale) with
  | nil => exact absurd whole Nat.toDigits_ne_nil
  | cons first others =>
      rw [whole] at digits
      intro minus
      have sign : first = '-' := (List.cons.inj minus).1
      exact absurd (digits first (List.mem_cons_self ..)) (sign ▸ by decide)

/-- Without the sign of a zero, a text is the one with the sign. -/
theorem unsigned_zero (negative : Bool) (decimal : Decimal) :
    (if (if negative then ['-'] else []) ++ decimal.text = ['-', '0'] then ['0']
      else (if negative then ['-'] else []) ++ decimal.text) =
      if negative && decimal.digits ≠ 0 then '-' :: decimal.text else decimal.text := by
  have unsigned := text_unsigned decimal
  have zero := text_zero_iff decimal
  cases negative
  · simp [unsigned]
  · by_cases none : decimal.digits = 0 <;> simp [zero, none, digits_zero_text]

/-- Zero, whole numbers and trimmed numbers are written by one rule. -/
theorem by_cases_result (places : Nat) (value : Float) :
    byCases places value = result places value := by
  cases viewed : view value with
  | infinite negative =>
      cases negative <;>
        simp [byCases, isZero, isSmallWhole, fixed, trimmed, result, viewed, signed]
  | undefined => simp [byCases, isZero, isSmallWhole, fixed, trimmed, result, viewed]
  | finite negative quanta =>
      rw [← String.toList_inj, result_at_places viewed, byCases, trimmed_fixed viewed]
      have zero : isZero value = decide (quanta = 0) := by rw [isZero, viewed]
      by_cases none : quanta = 0
      · have digits : (atPlaces places quanta).digits = 0 := by
          have whole := congrArg Decimal.digits (at_places_whole places 0)
          rw [Nat.zero_mul, Nat.zero_mul] at whole
          rw [none, whole]
        rw [if_pos (by rw [zero, decide_eq_true none])]
        simp [digits, digits_zero_text digits]
      rw [if_neg (by rw [zero, decide_eq_false none]; exact Bool.false_ne_true)]
      split
      · rename_i small
        rw [String.toList_ofList, small_whole viewed none small places]
      · rw [apply_ite String.toList, String.toList_ofList, String.toList_ofList]
        exact unsigned_zero negative (atPlaces places quanta)

end Numeral

open Binary64

/-- The text of a finite double is the one canonical text of its exact value, rounded half to
even at the wanted place. A whole number stands as it is. The rule by cases gives the same
text, so none of its ways out differs from the others. -/
theorem result_is_canonical_rounding (places : Nat) {value : Float} {number : ℚ}
    (known : number? value = some number) :
    (∃ whole : ℤ, NearestEven (number * 10 ^ places) whole ∧
      ∀ text : String, Numeral.result places value = text ↔
        Canonical places text.toList (whole / 10 ^ places)) ∧
    (∀ whole : ℤ, number = whole →
      Canonical places (Numeral.result places value).toList whole) ∧
    Numeral.byCases places value = Numeral.result places value := by
  obtain ⟨whole, nearest, canonical⟩ := Numeral.result_canonical known places
  refine ⟨⟨whole, nearest, fun text => ⟨?_, fun other => ?_⟩⟩, ?_,
    Numeral.by_cases_result places value⟩
  · rintro rfl
    exact canonical
  · exact String.toList_inj.mp (canonical_unique canonical other)
  · rintro integer rfl
    have scaled : ((integer * 10 ^ places : ℤ) : ℚ) = integer * 10 ^ places := by norm_num
    rw [← scaled] at nearest
    rwa [Numeral.nearest_even_whole nearest, scaled,
      mul_div_cancel_right₀ _ (pow_ne_zero _ (by norm_num))] at canonical

/-- Halfway between two places, below zero. -/
theorem result_is_canonical_rounding_eighth :
    number? (Float.ofBits 0xbfc0000000000000) = some (-(1 / 8)) ∧
      ∃ whole : ℤ, NearestEven (-(1 / 8) * 10 ^ 2) whole ∧
        ∀ text : String, Numeral.result 2 (Float.ofBits 0xbfc0000000000000) = text ↔
          Canonical 2 text.toList (whole / 10 ^ 2) := by
  have finite : view (Float.ofBits 0xbfc0000000000000) = .finite true (unit / 8) := by
    decide +kernel
  have eighth : unit / 8 * 8 = 1 * unit := by decide +kernel
  have magnitude : ofQuanta (unit / 8) * (8 : Nat) = (1 : Nat) := by
    rw [← of_quanta_mul, eighth, of_quanta_whole]
  have known : number? (Float.ofBits 0xbfc0000000000000) = some (-(1 / 8)) := by
    rw [number_view finite, withSign, if_pos rfl, eq_div_of_mul_eq (by norm_num) magnitude]
    norm_num
  exact ⟨known, (result_is_canonical_rounding 2 known).1⟩

end Calculator
