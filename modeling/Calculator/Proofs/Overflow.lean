import Calculator.Proofs.Factorial

/-!
# The factorial in words of 64 bits

The loop of products is written out once more in machine words: its factors are unsigned, its
product is signed, and a factor that is no signed word or a product that overflows ends it. What
it multiplies is recorded, so that one can say of every product, not only of the result, that
it is a factorial and has not wrapped.
-/

namespace Calculator.Whole

open scoped Nat

/-- The number as a signed word, if it is not too large for one. -/
def signed? (number : UInt64) : Option Int64 :=
  if (number.toNat : ℤ) ≤ Int64.maxValue.toInt then some number.toInt64 else none

/-- The product of two signed words, unless it overflows. -/
def product? (left right : Int64) : Option Int64 :=
  if Int64.minValue.toInt ≤ left.toInt * right.toInt ∧
      left.toInt * right.toInt ≤ Int64.maxValue.toInt then
    some (left * right)
  else none

theorem word_succ {word larger : UInt64} (before : word < larger) :
    (word + 1).toNat = word.toNat + 1 := by
  have below : word.toNat < larger.toNat := before
  have bound := larger.toNat_lt
  rw [UInt64.toNat_add, UInt64.toNat_one, Nat.mod_eq_of_lt (by omega)]

/-- The answer to each multiplication of a loop, in order, and the result of the loop. -/
structure Products where
  answers : List (Option Int64)
  result : Option Int64

/-- One more answer in front of those of a loop that goes on. -/
def Products.after (answer : Option Int64) (following : Products) : Products :=
  { following with answers := answer :: following.answers }

/-- Multiplies `product` by `factor`, `factor + 1`, up to `last`. The factor is not increased
beyond `last`, which may be the largest of all words. -/
def multiplyWords (last factor : UInt64) (product : Int64) : Products :=
  if last < factor then { answers := [], result := some product }
  else
    match signed? factor with
    | none => { answers := [], result := none }
    | some word =>
        match product? product word with
        | none => { answers := [none], result := none }
        | some next =>
            if before : factor < last then
              .after (some next) (multiplyWords last (factor + 1) next)
            else { answers := [some next], result := some next }
termination_by last.toNat - factor.toNat
decreasing_by
  have below : factor.toNat < last.toNat := before
  rw [word_succ before]
  omega

/-- The factorial, if a signed word can hold it. -/
def fittingFactorial? (n : ℕ) : Option ℤ :=
  if n ! ≤ 2 ^ 63 - 1 then some n ! else none

variable {factor : UInt64} {product : Int64} {n : ℕ}

theorem signed_small (number : UInt64) (small : number.toNat < 2 ^ 63) :
    ∃ word, signed? number = some word ∧ word.toInt = number.toNat := by
  have bound : (number.toNat : ℤ) ≤ Int64.maxValue.toInt := by
    rw [Int64.toInt_maxValue]
    omega
  refine ⟨number.toInt64, if_pos bound, ?_⟩
  change number.toBitVec.toInt = _
  rw [BitVec.toInt_eq_toNat_of_lt (by rw [UInt64.toNat_toBitVec]; omega), UInt64.toNat_toBitVec]

/-- A product that does not overflow is exact. -/
theorem product_exact (left right : Int64) : (product? left right).map Int64.toInt =
    if -2 ^ 63 ≤ left.toInt * right.toInt ∧ left.toInt * right.toInt ≤ 2 ^ 63 - 1 then
      some (left.toInt * right.toInt)
    else none := by
  rw [product?, Int64.toInt_minValue, Int64.toInt_maxValue]
  split
  · rename_i fits
    rw [Option.map_some, Int64.toInt_mul, Int.bmod_eq_of_le (by omega) (by omega)]
  · rfl

/-- Multiplied by its next factor, a factorial becomes the next, as long as this fits. -/
theorem product_factorial {word : Int64} (position : factor.toNat = n + 1) (small : n ≤ 20)
    (reached : product.toInt = (n ! : ℕ)) (signed : signed? factor = some word) :
    (product? product word).map Int64.toInt = fittingFactorial? (n + 1) := by
  obtain ⟨found, same, value⟩ := signed_small factor (by omega)
  obtain rfl := Option.some.inj (signed.symm.trans same)
  have exact : product.toInt * word.toInt = ((n + 1)! : ℕ) := by
    rw [reached, value, position, ← Nat.cast_mul, Nat.mul_comm, Nat.factorial_succ]
  have nonnegative : (-2 ^ 63 : ℤ) ≤ ((n + 1)! : ℕ) := by
    have positive := Int.natCast_nonneg (n + 1)!
    omega
  have bounds : (((n + 1)! : ℕ) : ℤ) ≤ 2 ^ 63 - 1 ↔ (n + 1)! ≤ 2 ^ 63 - 1 := by omega
  rw [product_exact, exact, fittingFactorial?]
  simp only [nonnegative, true_and, bounds]

theorem word_limit : wordLimit = 2 ^ 63 - 1 := by
  norm_num [wordLimit]

theorem fitting_factorial (n : ℕ) :
    fittingFactorial? n = if n ≤ 20 then some ((n ! : ℕ) : ℤ) else none := by
  rw [fittingFactorial?, ← word_limit]
  simp only [factorial_fits_iff]

theorem fitting_some {number : ℤ} (fits : fittingFactorial? n = some number) :
    n ≤ 20 ∧ number = (n ! : ℕ) := by
  rw [fitting_factorial] at fits
  split at fits
  · rename_i small
    exact ⟨small, (Option.some.inj fits).symm⟩
  · cases fits

theorem fitting_none_iff : fittingFactorial? n = none ↔ 20 < n := by
  simp [fitting_factorial]

/-- From the factorial that is reached, the loop goes on through all factorials that follow, up
to the last or to the first that does not fit. -/
theorem multiply_words (last factor : UInt64) (product : Int64) (position : factor.toNat = n + 1)
    (reached : product.toInt = (n ! : ℕ)) (within : n ≤ last.toNat) (small : n ≤ 20) :
    (multiplyWords last factor product).result.map Int64.toInt = fittingFactorial? last.toNat ∧
      (multiplyWords last factor product).answers.map (Option.map Int64.toInt) =
        (List.range' (n + 1) (min last.toNat 21 - n)).map fittingFactorial? := by
  fun_induction multiplyWords last factor product generalizing n with
  | case1 factor product past =>
      have below : last.toNat < factor.toNat := past
      obtain rfl : n = last.toNat := by omega
      have none : min last.toNat 21 - last.toNat = 0 := by omega
      rw [none, fitting_factorial, if_pos small, ← reached]
      exact ⟨rfl, rfl⟩
  | case2 factor product room unsigned =>
      obtain ⟨word, signed, -⟩ := signed_small factor (by omega)
      rw [unsigned] at signed
      cases signed
  | case3 factor product room word signed refused =>
      have exceeds := product_factorial position small reached signed
      rw [refused, Option.map_none] at exceeds
      -- So the factor is 21, and no factorial is asked for behind its own.
      have large := fitting_none_iff.mp exceeds.symm
      have inside : factor.toNat ≤ last.toNat := Nat.not_lt.mp room
      have one : min last.toNat 21 - n = 1 := by omega
      rw [one, List.range'_one, List.map_singleton, List.map_singleton, ← exceeds]
      exact ⟨(fitting_none_iff.mpr (by omega)).symm, rfl⟩
  | case4 factor product room word signed next multiplied before ih =>
      have fits := product_factorial position small reached signed
      rw [multiplied, Option.map_some] at fits
      obtain ⟨larger, value⟩ := fitting_some fits.symm
      have below : factor.toNat < last.toNat := before
      obtain ⟨result, answers⟩ := ih (by rw [word_succ before, position]) value (by omega) larger
      have one : min last.toNat 21 - n = min last.toNat 21 - (n + 1) + 1 := by omega
      refine ⟨result, ?_⟩
      rw [one, List.range'_succ, List.map_cons, Products.after, List.map_cons, answers, ← fits]
      rfl
  | case5 factor product room word signed next multiplied final =>
      have fits := product_factorial position small reached signed
      rw [multiplied, Option.map_some] at fits
      have inside : factor.toNat ≤ last.toNat := Nat.not_lt.mp room
      have reaches : last.toNat ≤ factor.toNat := Nat.not_lt.mp final
      have whole : last.toNat = n + 1 := by omega
      have larger := (fitting_some fits.symm).1
      have one : min (n + 1) 21 - n = 1 := by omega
      rw [whole, one, List.range'_one, List.map_singleton, List.map_singleton, ← fits]
      exact ⟨rfl, rfl⟩

/-- The loop for the factorial. Only that of zero begins behind its last factor. -/
theorem multiply_words_from_two (n : UInt64) :
    (multiplyWords n 2 1).result.map Int64.toInt = fittingFactorial? n.toNat ∧
      (multiplyWords n 2 1).answers.map (Option.map Int64.toInt) =
        (List.range' 2 (min n.toNat 21 - 1)).map fittingFactorial? := by
  rcases Nat.eq_zero_or_pos n.toNat with zero | positive
  · have past : n < 2 := UInt64.lt_iff_toNat_lt.mpr (zero ▸ Nat.two_pos)
    rw [multiplyWords, if_pos past, zero, fitting_factorial]
    exact ⟨rfl, rfl⟩
  · exact multiply_words n 2 1 rfl rfl positive (by decide)

/-- For every unsigned word the loop answers with the factorial, if it is at most the largest
signed word, and otherwise with nothing. It multiplies up to the number or to the first
factorial that is too large, which is that of 21; each product before is a factorial, and the one
that would leave the range is refused. So there are never more than 20 multiplications. -/
theorem factorial_never_wraps (n : UInt64) :
    factorial? n.toNat = (if n.toNat ! ≤ 2 ^ 63 - 1 then some n.toNat ! else none) ∧
      (multiplyWords n 2 1).result.map Int64.toInt = (factorial? n.toNat).map Nat.cast ∧
      (multiplyWords n 2 1).answers.map (Option.map Int64.toInt) =
        (List.range' 2 (min n.toNat 21 - 1)).map fittingFactorial? ∧
      (multiplyWords n 2 1).answers.length ≤ 20 := by
  have known : factorial? n.toNat = if n.toNat ! ≤ 2 ^ 63 - 1 then some n.toNat ! else none := by
    rw [factorial_checked, word_limit]
  obtain ⟨result, answers⟩ := multiply_words_from_two n
  refine ⟨known, ?_, answers, ?_⟩
  · rw [result, known, fittingFactorial?]
    split <;> rfl
  · have count := congrArg List.length answers
    simp only [List.length_map, List.length_range'] at count
    omega

end Calculator.Whole
