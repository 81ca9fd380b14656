import Mathlib.Data.Nat.Find
import Calculator.Proofs.Session
import Calculator.Proofs.Verdict

/-!
# The depth limit is a threshold

A larger budget takes part in nothing but the question whether a level may be entered. So a
reply that was not stopped for the depth stands under every larger limit, whether it is a
tree or a fault, and one number separates the limits that are too small from the others.
-/

namespace Calculator

variable {input inner : List Lexeme}

namespace Reply

/-- The reply stands when the budget grows: the second is the same, unless the first was
stopped for the depth. -/
inductive Stands : Reply input → Reply input → Prop
  | same (reply : Reply input) : Stands reply reply
  | tooDeep {rest : List Lexeme} {entered : Nat} (deeper : Reply input) :
      Stands (.failed .tooDeep rest entered) deeper

variable {reply deeper deepest : Reply inner}

theorem stands_trans (first : reply.Stands deeper) (second : deeper.Stands deepest) :
    reply.Stands deepest := by
  cases first with
  | same => exact second
  | tooDeep => exact .tooDeep deepest

theorem stands_and_then
    {next deeperNext : Expression → (rest : List Lexeme) → rest.length < inner.length →
      Reply input}
    (stands : reply.Stands deeper)
    (continued : ∀ tree rest shorter,
      (next tree rest shorter).Stands (deeperNext tree rest shorter)) :
    (reply.andThen next).Stands (deeper.andThen deeperNext) := by
  cases stands with
  | tooDeep => exact .tooDeep _
  | same =>
      cases reply with
      | done tree rest shorter => exact continued tree rest shorter
      | failed => exact .same _

theorem stands_within {wrap : Expression → Expression} {part : inner.length ≤ input.length}
    (stands : reply.Stands deeper) :
    (reply.within wrap part).Stands (deeper.within wrap part) :=
  stands_and_then stands fun _ _ _ => .same _

theorem stands_enter (stands : reply.Stands deeper) : reply.enter.Stands deeper.enter := by
  cases stands with
  | same => exact .same _
  | tooDeep => exact .tooDeep _

end Reply

namespace Grammar

open Reply

variable {read deeper inside deeperInside exponent deeperExponent : Reader}
  {operator? : Token → Option BinaryOperator}

/-- Whatever the first reader is given, its reply stands with the second one. -/
def Lasts (read deeper : Reader) : Prop :=
  ∀ input, (read input).Stands (deeper input)

theorem extend_stands (lasts : Lasts read deeper) (left : Expression) (rest : List Lexeme)
    (shorter : rest.length < input.length) :
    (extend operator? read left rest shorter).Stands
      (extend operator? deeper left rest shorter) := by
  fun_induction extend operator? read left rest shorter with
  | case1 left shorter =>
      rw [extend]
      exact .same _
  | case2 left lexeme after shorter none =>
      rw [extend]
      simp only [none]
      exact .same _
  | case3 left lexeme after shorter operator found _ ih =>
      rw [extend]
      simp only [found]
      exact stands_and_then (lasts after) ih

theorem chain_lasts (lasts : Lasts read deeper) :
    Lasts (chain operator? read) (chain operator? deeper) := fun input =>
  stands_and_then (lasts input) fun left rest shorter => extend_stands lasts left rest shorter

theorem sum_lasts (lasts : Lasts read deeper) : Lasts (sum read) (sum deeper) :=
  chain_lasts (chain_lasts lasts)

theorem group_lasts (lasts : Lasts inside deeperInside) :
    Lasts (group inside) (group deeperInside) := by
  intro input
  cases input with
  | nil => exact .same _
  | cons lexeme after =>
      simp only [group]
      split
      · exact stands_within (stands_and_then (lasts after) fun _ _ _ => .same _)
      · exact .same _

theorem primary_lasts (lasts : Lasts inside deeperInside) :
    Lasts (primary inside) (primary deeperInside) := by
  intro input
  cases input with
  | nil => exact group_lasts lasts []
  | cons lexeme after =>
      simp only [primary]
      split
      · exact .same _
      · split
        · exact stands_within (group_lasts lasts after)
        · exact .same _
        · exact .same _
      · exact group_lasts lasts (lexeme :: after)

theorem raise_stands (lasts : Lasts exponent deeperExponent) (tree : Expression)
    (rest : List Lexeme) (shorter : rest.length < input.length) :
    (raise exponent tree rest shorter).Stands (raise deeperExponent tree rest shorter) := by
  cases rest with
  | nil => exact .same _
  | cons lexeme after =>
      simp only [raise]
      split
      · exact stands_within (lasts after)
      · exact .same _

theorem power_lasts (insideLasts : Lasts inside deeperInside)
    (exponentLasts : Lasts exponent deeperExponent) :
    Lasts (power inside exponent) (power deeperInside deeperExponent) := by
  intro input
  have bases := stands_and_then (primary_lasts insideLasts input)
    fun tree rest shorter => .same (factorials tree rest shorter)
  exact stands_and_then bases fun tree rest shorter =>
    raise_stands exponentLasts tree rest shorter

/-- One more level changes no reply but that of a reader stopped for the depth. -/
theorem signed_lasts (depth : Nat) : Lasts (signed depth) (signed (depth + 1)) := by
  induction depth with
  | zero => exact fun _ => .tooDeep _
  | succ depth ih =>
      have powers := power_lasts (sum_lasts ih) ih
      intro input
      cases input with
      | nil => exact stands_enter (powers [])
      | cons lexeme after =>
          simp only [signed]
          split
          · exact stands_enter (stands_within (ih after))
          · exact stands_enter (powers (lexeme :: after))

theorem expression_lasts {lower upper : Nat} (le : lower ≤ upper) :
    Lasts (expression lower) (expression upper) := by
  intro input
  induction le with
  | refl => exact .same _
  | @step depth _ ih => exact stands_trans ih (sum_lasts (signed_lasts depth) input)

end Grammar

variable {lexemes : List Lexeme} {limit lower upper refused : Nat}

/-- Only the reader stopped for the depth makes an input too complex, and it names the limit. -/
theorem parse_refused (tooComplex : parse lexemes limit = .error (.tooComplex refused)) :
    refused = limit ∧
      ∃ rest entered, Grammar.expression limit lexemes = .failed .tooDeep rest entered := by
  cases reply : Grammar.expression limit lexemes with
  | done tree rest shorter =>
      rw [parse_done reply, Session.requireEnd] at tooComplex
      split at tooComplex
      · simp [Except.map] at tooComplex
      · split at tooComplex <;> simp [Except.map] at tooComplex
  | failed fault rest entered =>
      rw [parse_failed reply] at tooComplex
      have reported := Except.error.inj tooComplex
      obtain rfl := Session.report_too_complex reported
      exact ⟨(ParseError.tooComplex.inj reported).symm, rest, entered, rfl⟩

/-- What was not too complex stays as it is under a larger limit. -/
theorem parse_lasts (le : lower ≤ upper)
    (settled : parse lexemes lower ≠ .error (.tooComplex lower)) :
    parse lexemes upper = parse lexemes lower := by
  have stands := Grammar.expression_lasts le lexemes
  generalize found : Grammar.expression lower lexemes = reply at stands
  generalize deeperFound : Grammar.expression upper lexemes = deeper at stands
  cases stands with
  | tooDeep => exact absurd (parse_failed found) settled
  | same =>
      cases reply with
      | done tree rest shorter =>
          rw [parse_done found, parse_done deeperFound]
          rfl
      | failed fault rest entered =>
          rw [parse_failed found] at settled
          rw [parse_failed found, parse_failed deeperFound]
          cases fault with
          | tooDeep => contradiction
          | unexpected | unclosed | ended => rfl

theorem contents_length_le (lexemes : List Lexeme) :
    (contents lexemes).length ≤ lexemes.length := by
  have shorter : (contents lexemes).length ≤ (lexemes.map Lexeme.token).length :=
    (List.takeWhile_sublist _).length_le
  rwa [List.length_map] at shorter

/-- Every level is paid by a token, so a limit above their number is never reached. -/
theorem parse_roomy (roomy : (contents lexemes).length < limit) (refused : Nat) :
    parse lexemes limit ≠ .error (.tooComplex refused) := by
  intro tooComplex
  obtain ⟨_, rest, entered, stopped⟩ := parse_refused tooComplex
  have tracks := @Grammar.expression_tracks (endPosition lexemes) limit [] lexemes
  rw [stopped] at tracks
  exact absurd roomy (Nat.not_lt.mpr tracks)

theorem parse_limit_zero (lexemes : List Lexeme) :
    parse lexemes 0 = .error (.tooComplex 0) := by
  have stopped : Grammar.expression 0 lexemes = .failed .tooDeep lexemes 1 := rfl
  exact parse_failed stopped

/-- One number, at most one more than there are lexemes, separates the limits that are too
small from those that do not matter: below it nothing but the refusal is answered, and from it
on always one outcome, a tree or a fault that is not the refusal. So a larger limit changes no
outcome but the refusal, and none is refused above the number of lexemes. -/
theorem depth_limit_is_threshold (lexemes : List Lexeme) :
    (∃ threshold outcome, 1 ≤ threshold ∧ threshold ≤ lexemes.length + 1 ∧
      (∀ refused, outcome ≠ .error (.tooComplex refused)) ∧
      ∀ limit, parse lexemes limit =
        if limit < threshold then .error (.tooComplex limit) else outcome) ∧
    (∀ lower upper, lower ≤ upper →
      parse lexemes lower = .error (.tooComplex lower) ∨
        parse lexemes upper = parse lexemes lower) ∧
    ∀ limit, lexemes.length < limit →
      ∀ refused, parse lexemes limit ≠ .error (.tooComplex refused) := by
  have roomy : ∀ limit, lexemes.length < limit →
      ∀ refused, parse lexemes limit ≠ .error (.tooComplex refused) :=
    fun limit above => parse_roomy (Nat.lt_of_le_of_lt (contents_length_le lexemes) above)
  refine ⟨?_, fun lower upper le => ?_, roomy⟩
  · classical
    have settles : ∃ limit, parse lexemes limit ≠ .error (.tooComplex limit) :=
      ⟨_, roomy _ (Nat.lt_succ_self _) _⟩
    refine ⟨Nat.find settles, parse lexemes (Nat.find settles), ?_, ?_, ?_, fun limit => ?_⟩
    · exact (Nat.find_pos settles).mpr fun settled => settled (parse_limit_zero lexemes)
    · exact Nat.find_min' settles (roomy _ (Nat.lt_succ_self _) _)
    · intro refused tooComplex
      obtain ⟨rfl, _⟩ := parse_refused tooComplex
      exact Nat.find_spec settles tooComplex
    · split
      · rename_i below
        exact not_not.mp (Nat.find_min settles below)
      · rename_i above
        exact parse_lasts (Nat.not_lt.mp above) (Nat.find_spec settles)
  · exact or_iff_not_imp_left.mpr (parse_lasts le)

/-- In `((*` the third level is refused before the star is seen. -/
theorem depth_limit_is_threshold_star :
    let lexemes : List Lexeme := [⟨.opening, "(", 0⟩, ⟨.opening, "(", 1⟩, ⟨.times, "*", 2⟩]
    parse lexemes 2 = .error (.tooComplex 2) ∧
      ∀ limit, 3 ≤ limit → parse lexemes limit = .error (.unexpectedToken 2 "*") := by
  intro lexemes
  have refused : parse lexemes 2 = .error (.tooComplex 2) := rfl
  have settled : parse lexemes 3 = .error (.unexpectedToken 2 "*") := rfl
  refine ⟨refused, fun limit above => ?_⟩
  rcases (depth_limit_is_threshold lexemes).2.1 3 limit above with tooComplex | same
  · rw [settled] at tooComplex
    contradiction
  · rw [same, settled]

end Calculator
