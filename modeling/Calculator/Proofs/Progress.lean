import Calculator.Proofs.Reading

/-!
# How far a reader moves

Whether it finds a tree or stops, a reader only moves forward, and never over a closing
mark. A level that is one too many is noticed when the whole budget has been entered.
-/

namespace Calculator

/-- The rest is what is left of the start behind lexemes that are not closing marks. -/
def Passed (start rest : List Lexeme) : Prop :=
  ∃ taken, start = taken ++ rest ∧ ∀ lexeme ∈ taken, lexeme.token ≠ .finish

variable {input inner start middle rest after : List Lexeme} {lexeme : Lexeme} {budget : Nat}

theorem passed_refl (start : List Lexeme) : Passed start start := ⟨[], rfl, by simp⟩

theorem passed_trans (first : Passed start middle) (second : Passed middle rest) :
    Passed start rest := by
  rcases first with ⟨taken, rfl, proper⟩
  rcases second with ⟨others, rfl, otherProper⟩
  refine ⟨taken ++ others, by simp, fun lexeme member => ?_⟩
  exact (List.mem_append.mp member).elim (proper lexeme) (otherProper lexeme)

theorem passed_cons (proper : lexeme.token ≠ .finish) : Passed (lexeme :: after) after :=
  ⟨[lexeme], rfl, by simpa using proper⟩

theorem passed_suffix (passed : Passed start rest) : rest <:+ start := by
  obtain ⟨taken, split, _⟩ := passed
  exact ⟨taken, split.symm⟩

namespace Reply

/-- The reply leaves a part of `start`, and if it stopped for the depth it had entered more
levels than the budget allows. -/
def Advances (budget : Nat) (start : List Lexeme) : Reply input → Prop
  | .done _ rest _ => Passed start rest
  | .failed fault rest entered => Passed start rest ∧ (fault = .tooDeep → budget < entered)

theorem advances_failed {fault : Fault} {entered : Nat} (passed : Passed start rest)
    (shallow : fault ≠ .tooDeep) :
    (Reply.failed fault rest entered : Reply input).Advances budget start :=
  ⟨passed, fun deep => absurd deep shallow⟩

theorem advances_and_then {outer : List Lexeme} {reply : Reply inner}
    {next : Expression → (rest : List Lexeme) → rest.length < inner.length → Reply input}
    (advances : reply.Advances budget start) (passed : Passed outer start)
    (continued : ∀ tree rest shorter, Passed outer rest →
      (next tree rest shorter).Advances budget outer) :
    (reply.andThen next).Advances budget outer := by
  cases reply with
  | done tree rest shorter => exact continued tree rest shorter (passed_trans passed advances)
  | failed fault rest entered => exact ⟨passed_trans passed advances.1, advances.2⟩

theorem advances_within {outer : List Lexeme} {reply : Reply inner}
    {wrap : Expression → Expression} {part : inner.length ≤ input.length}
    (advances : reply.Advances budget start) (passed : Passed outer start) :
    (reply.within wrap part).Advances budget outer :=
  advances_and_then advances passed fun _ _ _ => id

theorem advances_enter {reply : Reply input} (advances : reply.Advances budget start) :
    reply.enter.Advances (budget + 1) start := by
  cases reply with
  | done => exact advances
  | failed fault rest entered =>
      exact ⟨advances.1, fun deep => Nat.succ_lt_succ (advances.2 deep)⟩

/-- A reply that found no tree had entered a level. -/
def Charged : Reply input → Prop
  | .done .. => True
  | .failed _ _ entered => 0 < entered

theorem charged_and_then {reply : Reply inner}
    {next : Expression → (rest : List Lexeme) → rest.length < inner.length → Reply input}
    (charged : reply.Charged) (continued : ∀ tree rest shorter, (next tree rest shorter).Charged) :
    (reply.andThen next).Charged := by
  cases reply with
  | done tree rest shorter => exact continued tree rest shorter
  | failed => exact charged

theorem charged_enter (reply : Reply input) : reply.enter.Charged := by
  cases reply with
  | done => trivial
  | failed fault rest entered => exact Nat.succ_pos entered

end Reply

namespace Grammar

open Reply

variable {operator? : Token → Option BinaryOperator} {read inside exponent : Reader}

/-- The reader moves forward from whatever it is given. -/
def Forward (budget : Nat) (read : Reader) : Prop :=
  ∀ input, (read input).Advances budget input

theorem extend_advances (finishless : operator? .finish = none) (forward : Forward budget read)
    (left : Expression) (rest : List Lexeme) (shorter : rest.length < input.length)
    (passed : Passed start rest) :
    (extend operator? read left rest shorter).Advances budget start := by
  fun_induction extend operator? read left rest shorter with
  | case1 | case2 => exact passed
  | case3 left lexeme after shorter operator found _ ih =>
      have proper : lexeme.token ≠ .finish := fun closing => by
        simp [closing, finishless] at found
      apply advances_and_then (forward after) (passed_trans passed (passed_cons proper))
      intro right next progress further
      exact ih right next progress further

theorem chain_forward (finishless : operator? .finish = none) (forward : Forward budget read) :
    Forward budget (chain operator? read) := fun input =>
  advances_and_then (forward input) (passed_refl input) fun left rest shorter passed =>
    extend_advances finishless forward left rest shorter passed

theorem sum_forward (forward : Forward budget read) : Forward budget (sum read) :=
  chain_forward rfl (chain_forward rfl forward)

theorem misplaced_shallow (input : List Lexeme) : misplaced input ≠ .tooDeep := by
  unfold misplaced
  split
  · simp
  · split <;> simp

theorem close_advances {opening : Nat} (tree : Expression) (rest : List Lexeme)
    (shorter : rest.length < input.length) (passed : Passed start rest) :
    (close opening tree rest shorter).Advances budget start := by
  cases rest with
  | nil => exact advances_failed passed (by simp)
  | cons lexeme after =>
      simp only [close]
      split
      · rename_i closing
        exact passed_trans passed (passed_cons (by simp [closing]))
      · exact advances_failed passed (by simp)
      · exact advances_failed passed (by simp)

theorem group_forward (forward : Forward budget inside) : Forward budget (group inside) := by
  intro input
  cases input with
  | nil => exact advances_failed (passed_refl []) (misplaced_shallow [])
  | cons lexeme after =>
      simp only [group]
      split
      · rename_i opening
        have passed : Passed (lexeme :: after) after := passed_cons (by simp [opening])
        apply advances_within _ (passed_refl _)
        exact advances_and_then (forward after) passed fun tree rest shorter =>
          close_advances tree rest shorter
      · exact advances_failed (passed_refl _) (misplaced_shallow _)

theorem primary_forward (forward : Forward budget inside) :
    Forward budget (primary inside) := by
  intro input
  cases input with
  | nil => exact group_forward forward []
  | cons lexeme after =>
      simp only [primary]
      split
      · rename_i literal
        exact passed_cons (by simp [literal])
      · rename_i name named
        have passed : Passed (lexeme :: after) after := passed_cons (by simp [named])
        split
        · exact advances_within (group_forward forward after) passed
        · exact passed
        · exact advances_failed (passed_refl _) (misplaced_shallow _)
      · exact group_forward forward (lexeme :: after)

theorem factorials_advances (tree : Expression) (rest : List Lexeme)
    (shorter : rest.length < input.length) (passed : Passed start rest) :
    (factorials tree rest shorter).Advances budget start := by
  fun_induction factorials tree rest shorter with
  | case1 | case3 => exact passed
  | case2 tree lexeme after shorter mark ih =>
      exact ih (passed_trans passed (passed_cons (by simp [mark])))

theorem raise_advances (forward : Forward budget exponent) (tree : Expression)
    (rest : List Lexeme) (shorter : rest.length < input.length) (passed : Passed start rest) :
    (raise exponent tree rest shorter).Advances budget start := by
  cases rest with
  | nil => exact passed
  | cons lexeme after =>
      simp only [raise]
      split
      · rename_i sign
        exact advances_within (forward after)
          (passed_trans passed (passed_cons (by simp [sign])))
      · exact passed

theorem power_forward (insideForward : Forward budget inside)
    (exponentForward : Forward budget exponent) : Forward budget (power inside exponent) := by
  intro input
  have based : ((primary inside input).andThen factorials).Advances budget input :=
    advances_and_then (primary_forward insideForward input) (passed_refl input)
      fun tree rest shorter => factorials_advances tree rest shorter
  exact advances_and_then based (passed_refl input)
    fun base rest shorter => raise_advances exponentForward base rest shorter

theorem signed_forward (budget : Nat) : Forward budget (signed budget) := by
  induction budget with
  | zero => exact fun input => ⟨passed_refl input, fun _ => Nat.one_pos⟩
  | succ budget ih =>
      have powers : Forward budget (power (sum (signed budget)) (signed budget)) :=
        power_forward (sum_forward ih) ih
      intro input
      cases input with
      | nil => exact advances_enter (powers [])
      | cons lexeme after =>
          simp only [signed]
          split
          · rename_i sign
            exact advances_enter (advances_within (ih after) (passed_cons (by simp [sign])))
          · exact advances_enter (powers (lexeme :: after))

theorem expression_forward (budget : Nat) : Forward budget (expression budget) :=
  sum_forward (signed_forward budget)

theorem extend_charged (charged : ∀ input, (read input).Charged) (left : Expression)
    (rest : List Lexeme) (shorter : rest.length < input.length) :
    (extend operator? read left rest shorter).Charged := by
  fun_induction extend operator? read left rest shorter with
  | case1 | case2 => trivial
  | case3 left lexeme after shorter operator found _ ih =>
      exact charged_and_then (charged after) ih

theorem chain_charged (charged : ∀ input, (read input).Charged) (input : List Lexeme) :
    (chain operator? read input).Charged :=
  charged_and_then (charged input) fun left rest shorter => extend_charged charged left rest shorter

theorem signed_charged (budget : Nat) (input : List Lexeme) :
    (signed budget input).Charged := by
  cases budget with
  | zero => exact Nat.one_pos
  | succ budget =>
      simp only [signed]
      split
      · exact charged_enter _
      · split <;> exact charged_enter _

theorem expression_charged (budget : Nat) (input : List Lexeme) :
    (expression budget input).Charged :=
  chain_charged (chain_charged (signed_charged budget)) input

end Grammar

end Calculator
