import Calculator.Proofs.Derivation

/-!
# Readers against the grammar

Each reader is compared with the phrase it reads, in both directions. What it takes
from the input derives its tree; and a phrase in front of tokens that cannot continue
it is read to its end. The loops over operators and factorials are described by the
tree they have built so far, so that one more operator is one more step.
-/

namespace Calculator

variable {input inner : List Lexeme}

/-- A way in which tokens form a tree at a level of nesting. -/
abbrev Formation := List Token → Expression → Nat → Prop

/-- How tightly a token binds to the operand in front of it; zero if it cannot continue
an operand at all. -/
def Token.strength : Token → Nat
  | .factorial => 4
  | .power => 3
  | .times | .divide => 2
  | .plus | .minus => 1
  | _ => 0

/-- What comes next binds less tightly than `strength`. -/
def Settled (strength : Nat) (rest : List Lexeme) : Prop :=
  ∀ lexeme ∈ rest.head?, lexeme.token.strength < strength

namespace Reply

/-- If a tree was read, the tokens taken from `start` form it within the depth. -/
def Sound (forms : Formation) (depth : Nat) (start : List Lexeme) : Reply input → Prop
  | .done tree rest _ =>
      ∃ taken level, start = taken ++ rest ∧ level ≤ depth ∧
        forms (taken.map Lexeme.token) tree level
  | .failed .. => True

theorem sound_done {forms : Formation} {depth level : Nat} {start rest : List Lexeme}
    {tree : Expression} {shorter : rest.length < input.length} (taken : List Lexeme)
    (split : start = taken ++ rest) (within : level ≤ depth)
    (formed : forms (taken.map Lexeme.token) tree level) :
    (Reply.done tree rest shorter : Reply input).Sound forms depth start :=
  ⟨taken, level, split, within, formed⟩

theorem sound_and_then {forms outerForms : Formation} {depth outerDepth : Nat}
    {start outerStart : List Lexeme} {reply : Reply inner}
    {next : Expression → (rest : List Lexeme) → rest.length < inner.length → Reply input}
    (sound : reply.Sound forms depth start)
    (continued : ∀ tree taken rest shorter level, start = taken ++ rest → level ≤ depth →
      forms (taken.map Lexeme.token) tree level →
      (next tree rest shorter).Sound outerForms outerDepth outerStart) :
    (reply.andThen next).Sound outerForms outerDepth outerStart := by
  cases reply with
  | done tree rest shorter =>
      obtain ⟨taken, level, split, within, formed⟩ := sound
      exact continued tree taken rest shorter level split within formed
  | failed => trivial

theorem sound_enter {forms : Formation} {depth : Nat} {start : List Lexeme}
    {reply : Reply input} (sound : reply.Sound forms depth start) :
    reply.enter.Sound forms depth start := by
  cases reply with
  | done => exact sound
  | failed => trivial

end Reply

namespace Grammar

open Reply

/-- The reader takes nothing but what forms its tree. -/
def TakesOnly (forms : Formation) (depth : Nat) (read : Reader) : Prop :=
  ∀ input, (read input).Sound forms depth input

def Enclosed : Formation := fun tokens tree level =>
  ∃ between, tokens = .opening :: (between ++ [.closing]) ∧ Derives .sum between tree level

theorem additive_joins {token : Token} {operator : BinaryOperator} :
    token.additive? = some operator ↔ Joins .sum .product token operator := by
  constructor
  · intro found
    cases token <;> simp only [Token.additive?, Option.some.injEq, reduceCtorEq] at found <;>
      subst found <;> constructor
  · rintro (_ | _) <;> rfl

theorem multiplicative_joins {token : Token} {operator : BinaryOperator} :
    token.multiplicative? = some operator ↔ Joins .product .signed token operator := by
  constructor
  · intro found
    cases token <;> simp only [Token.multiplicative?, Option.some.injEq, reduceCtorEq] at found <;>
      subst found <;> constructor
  · rintro (_ | _) <;> rfl

theorem function_named_none {name : String} {named : Constant}
    (found : Constant.named? name = some named) : Function.named? name = none := by
  unfold Constant.named? at found
  split at found <;> first | rfl | simp at found

section Soundness

variable {whole operand : Phrase} {depth : Nat} {operator? : Token → Option BinaryOperator}
  {read inside exponent : Reader}

theorem extend_sound
    (joins : ∀ {token operator}, operator? token = some operator →
      Joins whole operand token operator)
    (reads : TakesOnly (Derives operand) depth read)
    (left : Expression) (rest : List Lexeme) (shorter : rest.length < input.length)
    {start : List Lexeme} {level : Nat} (taken : List Lexeme) (split : start = taken ++ rest)
    (within : level ≤ depth) (derivation : Derives whole (taken.map Lexeme.token) left level) :
    (extend operator? read left rest shorter).Sound (Derives whole) depth start := by
  fun_induction extend operator? read left rest shorter generalizing taken level with
  | case1 left shorter => exact sound_done taken split within derivation
  | case2 left lexeme after shorter _ => exact sound_done taken split within derivation
  | case3 left lexeme after shorter operator found _ ih =>
      apply sound_and_then (reads after)
      intro right rightTaken next progress rightLevel rightSplit rightWithin rightDerivation
      have joined := Derives.join (joins found) derivation rightDerivation
      apply ih right next progress (taken ++ lexeme :: rightTaken)
        (by simp [split, rightSplit]) (Nat.max_le.mpr ⟨within, rightWithin⟩)
      simpa using joined

theorem chain_sound
    (joins : ∀ {token operator}, operator? token = some operator →
      Joins whole operand token operator)
    (single : ∀ {tokens tree level}, Derives operand tokens tree level →
      Derives whole tokens tree level)
    (reads : TakesOnly (Derives operand) depth read) :
    TakesOnly (Derives whole) depth (chain operator? read) := by
  intro input
  apply sound_and_then (reads input)
  intro tree taken rest shorter level split within derivation
  exact extend_sound joins reads tree rest shorter taken split within (single derivation)

theorem sum_sound (reads : TakesOnly (Derives .signed) depth read) :
    TakesOnly (Derives .sum) depth (sum read) :=
  chain_sound additive_joins.mp .term (chain_sound multiplicative_joins.mp .factor reads)

theorem group_sound (reads : TakesOnly (Derives .sum) depth inside) :
    TakesOnly Enclosed depth (group inside) := by
  intro input
  cases input with
  | nil => trivial
  | cons lexeme after =>
      simp only [group]
      split
      · rename_i opening
        have closed : ((inside after).andThen (close lexeme.position)).Sound Enclosed depth
            (lexeme :: after) := by
          apply sound_and_then (reads after)
          intro tree taken rest shorter level split within derivation
          cases rest with
          | nil => trivial
          | cons last rest =>
              simp only [close]
              split
              · rename_i closing
                apply sound_done (lexeme :: (taken ++ [last])) (by simp [split]) within
                exact ⟨taken.map Lexeme.token, by simp [opening, closing], derivation⟩
              · trivial
              · trivial
        apply sound_and_then closed
        intro tree taken rest shorter level split within enclosed
        exact sound_done taken split within enclosed
      · trivial

theorem primary_sound (reads : TakesOnly (Derives .sum) depth inside) :
    TakesOnly (Derives .primary) depth (primary inside) := by
  have grouped : ∀ input, (group inside input).Sound (Derives .primary) depth input := by
    intro input
    have enclosed := group_sound reads input
    cases reply : group inside input with
    | failed => trivial
    | done tree rest shorter =>
        rw [reply] at enclosed
        obtain ⟨taken, level, split, within, between, same, derivation⟩ := enclosed
        exact sound_done taken split within (same ▸ .group derivation)
  intro input
  cases input with
  | nil => exact grouped []
  | cons lexeme after =>
      simp only [primary]
      split
      · rename_i value found
        apply sound_done [lexeme] rfl (Nat.zero_le depth)
        simpa [found] using Derives.number value
      · rename_i name found
        split
        · rename_i function _ known
          apply sound_and_then (group_sound reads after)
          rintro tree taken rest shorter level split within ⟨between, same, derivation⟩
          apply sound_done (lexeme :: taken) (by simp [split]) within
          simpa [found, same] using Derives.call known derivation
        · rename_i constant _ known
          apply sound_done [lexeme] rfl (Nat.zero_le depth)
          simpa [found] using Derives.constant known
        · trivial
      · exact grouped (lexeme :: after)

theorem factorials_sound (tree : Expression) (rest : List Lexeme)
    (shorter : rest.length < input.length) {start : List Lexeme} {level : Nat}
    (taken : List Lexeme) (split : start = taken ++ rest) (within : level ≤ depth)
    (derivation : Derives .factorials (taken.map Lexeme.token) tree level) :
    (factorials tree rest shorter).Sound (Derives .factorials) depth start := by
  fun_induction factorials tree rest shorter generalizing taken with
  | case1 tree shorter => exact sound_done taken split within derivation
  | case2 tree lexeme after shorter mark ih =>
      apply ih (taken ++ [lexeme]) (by simp [split])
      simpa [mark] using Derives.factorial derivation
  | case3 tree lexeme after shorter => exact sound_done taken split within derivation

theorem power_sound (insideReads : TakesOnly (Derives .sum) depth inside)
    (exponentReads : TakesOnly (Derives .signed) depth exponent) :
    TakesOnly (Derives .power) depth (power inside exponent) := by
  intro input
  have bases : ((primary inside input).andThen factorials).Sound (Derives .factorials) depth
      input := by
    apply sound_and_then (primary_sound insideReads input)
    intro tree taken rest shorter level split within derivation
    exact factorials_sound tree rest shorter taken split within (.plain derivation)
  apply sound_and_then bases
  intro base taken rest shorter level split within derivation
  cases rest with
  | nil => exact sound_done taken split within (.base derivation)
  | cons lexeme after =>
      simp only [raise]
      split
      · rename_i sign
        apply sound_and_then (exponentReads after)
        intro tree exponentTaken rest _ exponentLevel exponentSplit exponentWithin raised
        apply sound_done (taken ++ lexeme :: exponentTaken) (by simp [split, exponentSplit])
          (Nat.max_le.mpr ⟨within, exponentWithin⟩)
        simpa [sign] using Derives.raised derivation raised
      · exact sound_done taken split within (.base derivation)

theorem signed_sound (depth : Nat) : TakesOnly (Derives .signed) depth (signed depth) := by
  induction depth with
  | zero => intro input; trivial
  | succ depth ih =>
      have powers : ∀ input, (power (sum (signed depth)) (signed depth) input).enter.Sound
          (Derives .signed) (depth + 1) input := by
        intro input
        apply sound_enter
        have sound := power_sound (sum_sound ih) ih input
        cases reply : power (sum (signed depth)) (signed depth) input with
        | failed => trivial
        | done tree rest shorter =>
            rw [reply] at sound
            obtain ⟨taken, level, split, within, derivation⟩ := sound
            exact sound_done taken split (Nat.succ_le_succ within) (.unsigned derivation)
      intro input
      cases input with
      | nil => exact powers []
      | cons lexeme after =>
          simp only [signed]
          split
          · rename_i sign
            apply sound_enter
            apply sound_and_then (ih after)
            intro tree taken rest shorter level split within derivation
            apply sound_done (lexeme :: taken) (by simp [split])
              (Nat.succ_le_succ within)
            simpa [sign] using Derives.negation derivation
          · exact powers (lexeme :: after)

theorem expression_sound (depth : Nat) :
    TakesOnly (Derives .sum) depth (expression depth) :=
  sum_sound (signed_sound depth)

end Soundness

section Completeness

variable {depth strength : Nat} {operator? : Token → Option BinaryOperator}
  {read inside exponent : Reader} {tree left right : Expression} {operator : BinaryOperator}
  {lexeme : Lexeme} {taken rest : List Lexeme}

theorem settled_mono {lower upper : Nat} (settled : Settled lower rest) (le : lower ≤ upper) :
    Settled upper rest :=
  fun lexeme next => Nat.lt_of_lt_of_le (settled lexeme next) le

theorem settled_cons (weak : lexeme.token.strength < strength) :
    Settled strength (lexeme :: rest) := by
  simpa [Settled] using weak

theorem extend_settled (binds : ∀ token, operator? token ≠ none → strength ≤ token.strength)
    (settled : Settled strength rest) (shorter : rest.length < input.length) :
    extend operator? read tree rest shorter = .done tree rest shorter := by
  cases rest with
  | nil => rw [extend]
  | cons lexeme after =>
      have weak := settled lexeme rfl
      cases found : operator? lexeme.token with
      | none => rw [extend, found]
      | some operator =>
          have strong := binds lexeme.token (by simp [found])
          exact absurd weak (Nat.not_lt.mpr strong)

theorem extend_join (found : operator? lexeme.token = some operator)
    (operand : ∃ progress, read (taken ++ rest) = .done right rest progress)
    (shorter : (lexeme :: (taken ++ rest)).length < input.length) :
    ∃ progress, extend operator? read left (lexeme :: (taken ++ rest)) shorter =
      extend operator? read (.binary operator left right) rest progress := by
  obtain ⟨progress, done⟩ := operand
  refine ⟨Nat.lt_trans progress (Nat.lt_trans (Nat.lt_succ_self _) shorter), ?_⟩
  rw [extend]
  simp only [found, done, andThen]

theorem factorials_settled (settled : Settled 4 rest) (shorter : rest.length < input.length) :
    factorials tree rest shorter = .done tree rest shorter := by
  cases rest with
  | nil => rfl
  | cons lexeme after =>
      have weak := settled lexeme rfl
      simp only [factorials]
      split
      · rename_i mark
        simp [mark, Token.strength] at weak
      · rfl

theorem raise_settled (settled : Settled 3 rest) (shorter : rest.length < input.length) :
    raise exponent tree rest shorter = .done tree rest shorter := by
  cases rest with
  | nil => rfl
  | cons lexeme after =>
      have weak := settled lexeme rfl
      simp only [raise]
      split
      · rename_i sign
        simp [sign, Token.strength] at weak
      · rfl

theorem group_reads {first last : Lexeme} (opening : first.token = .opening)
    (closing : last.token = .closing)
    (done : ∃ shorter, inside (taken ++ last :: rest) = .done tree (last :: rest) shorter) :
    ∃ shorter, group inside (first :: (taken ++ last :: rest)) = .done tree rest shorter := by
  obtain ⟨shorter, done⟩ := done
  have within : rest.length < (first :: (taken ++ last :: rest)).length := by
    simp only [List.length_cons, List.length_append]
    omega
  refine ⟨within, ?_⟩
  simp only [group, opening, done, andThen, close, closing, Reply.within, id]

theorem primary_opening (opening : lexeme.token = .opening) :
    primary inside (lexeme :: rest) = group inside (lexeme :: rest) := by
  simp only [primary, opening]

theorem signed_succ_power (unsigned : ∀ lexeme ∈ input.head?, lexeme.token ≠ .minus) :
    signed (depth + 1) input =
      (power (expression depth) (signed depth) input).enter := by
  cases input with
  | nil => rfl
  | cons lexeme after =>
      have other := unsigned lexeme rfl
      simp only [signed]
      rfl

/-- How the reader of a phrase stands once the phrase is taken and `rest` is next. Of
the loops it is said where they stand, not that they end there. -/
def Resumes (depth : Nat) (taken : List Lexeme) (tree : Expression) : Phrase → Prop
  | .sum => ∀ rest, Settled 2 rest → ∃ shorter,
      expression depth (taken ++ rest) =
        extend Token.additive? (chain Token.multiplicative? (signed depth)) tree rest shorter
  | .product => ∀ rest, Settled 3 rest → ∃ shorter,
      chain Token.multiplicative? (signed depth) (taken ++ rest) =
        extend Token.multiplicative? (signed depth) tree rest shorter
  | .signed => ∀ rest, Settled 3 rest → ∃ shorter,
      signed depth (taken ++ rest) = .done tree rest shorter
  | .power => ∀ rest, Settled 3 rest → ∃ shorter,
      power (expression depth) (signed depth) (taken ++ rest) = .done tree rest shorter
  | .factorials => ∀ rest, ∃ shorter,
      (primary (expression depth) (taken ++ rest)).andThen factorials =
        factorials tree rest shorter
  | .primary => ∀ rest, ∃ shorter,
      primary (expression depth) (taken ++ rest) = .done tree rest shorter

theorem additive_strength (token : Token) (joins : token.additive? ≠ none) :
    1 ≤ token.strength := by
  cases token <;> simp [Token.additive?, Token.strength] at joins ⊢

theorem multiplicative_strength (token : Token) (joins : token.multiplicative? ≠ none) :
    2 ≤ token.strength := by
  cases token <;> simp [Token.multiplicative?, Token.strength] at joins ⊢

theorem product_settled (resumes : Resumes depth taken tree .product)
    (settled : Settled 2 rest) : ∃ shorter,
      chain Token.multiplicative? (signed depth) (taken ++ rest) = .done tree rest shorter := by
  obtain ⟨shorter, resumed⟩ := resumes rest (settled_mono settled (by omega))
  exact ⟨shorter, resumed.trans (extend_settled multiplicative_strength settled shorter)⟩

theorem sum_settled (resumes : Resumes depth taken tree .sum) (settled : Settled 1 rest) :
    ∃ shorter, expression depth (taken ++ rest) = .done tree rest shorter := by
  obtain ⟨shorter, resumed⟩ := resumes rest (settled_mono settled (by omega))
  exact ⟨shorter, resumed.trans (extend_settled additive_strength settled shorter)⟩

theorem chain_join {leftTaken rightTaken : List Lexeme}
    (found : operator? lexeme.token = some operator)
    (resumed : ∃ shorter, chain operator? read (leftTaken ++ lexeme :: (rightTaken ++ rest)) =
      extend operator? read left (lexeme :: (rightTaken ++ rest)) shorter)
    (operand : ∃ progress, read (rightTaken ++ rest) = .done right rest progress) :
    ∃ shorter, chain operator? read (leftTaken ++ lexeme :: rightTaken ++ rest) =
      extend operator? read (.binary operator left right) rest shorter := by
  obtain ⟨shorter, resumed⟩ := resumed
  obtain ⟨progress, joined⟩ := extend_join found operand shorter
  rw [List.append_assoc, List.cons_append]
  exact ⟨progress, resumed.trans joined⟩

theorem resumes_join {whole operand : Phrase} {token : Token}
    {leftTaken rightTaken : List Lexeme} (same : lexeme.token = token)
    (joins : Joins whole operand token operator)
    (leftResumes : Resumes depth leftTaken left whole)
    (rightResumes : Resumes depth rightTaken right operand) :
    Resumes depth (leftTaken ++ lexeme :: rightTaken) (.binary operator left right) whole := by
  cases joins with
  | plus | minus =>
      intro rest settled
      have next : Settled 2 (lexeme :: (rightTaken ++ rest)) :=
        settled_cons (by rw [same]; decide)
      exact chain_join (additive_joins.mpr (by rw [same]; constructor)) (leftResumes _ next)
        (product_settled rightResumes settled)
  | times | divide =>
      intro rest settled
      have next : Settled 3 (lexeme :: (rightTaken ++ rest)) :=
        settled_cons (by rw [same]; decide)
      exact chain_join (multiplicative_joins.mpr (by rw [same]; constructor))
        (leftResumes _ next) (rightResumes rest settled)

theorem enclosed_reads {between : List Token} {enclosed : List Lexeme}
    (resumes : ∀ taken, taken.map Lexeme.token = between → Resumes depth taken tree .sum)
    (same : enclosed.map Lexeme.token = .opening :: (between ++ [.closing]))
    (rest : List Lexeme) : ∃ shorter,
      group (expression depth) (enclosed ++ rest) = .done tree rest shorter := by
  rcases List.map_eq_cons_iff.mp same with ⟨first, others, rfl, opening, othersSame⟩
  obtain ⟨taken, last, rfl, takenSame, lastSame⟩ := List.map_eq_append_iff.mp othersSame
  rcases List.map_eq_singleton_iff.mp lastSame with ⟨last, rfl, closing⟩
  have next : Settled 1 (last :: rest) := settled_cons (by rw [closing]; decide)
  have order : first :: (taken ++ [last]) ++ rest = first :: (taken ++ last :: rest) := by simp
  rw [order]
  exact group_reads opening closing (sum_settled (resumes taken takenSame) next)

theorem derives_resumes {phrase : Phrase} {tokens : List Token} {level : Nat}
    (derivation : Derives phrase tokens tree level) :
    ∀ depth taken, taken.map Lexeme.token = tokens → level ≤ depth →
      Resumes depth taken tree phrase := by
  induction derivation with
  | term _ ih =>
      intro depth taken same within rest settled
      obtain ⟨shorter, done⟩ := product_settled (ih depth taken same within) settled
      exact ⟨shorter, by simp only [expression, sum, chain.eq_1 Token.additive?, done, andThen]⟩
  | factor _ ih =>
      intro depth taken same within rest settled
      obtain ⟨shorter, done⟩ := ih depth taken same within rest settled
      exact ⟨shorter, by simp only [chain, done, andThen]⟩
  | join joins _ _ leftIh rightIh =>
      intro depth taken same within
      rcases List.map_eq_append_iff.mp same with ⟨leftTaken, others, rfl, leftSame, othersSame⟩
      rcases List.map_eq_cons_iff.mp othersSame with ⟨lexeme, rightTaken, rfl, sign, rightSame⟩
      obtain ⟨leftWithin, rightWithin⟩ := Nat.max_le.mp within
      exact resumes_join sign joins (leftIh depth leftTaken leftSame leftWithin)
        (rightIh depth rightTaken rightSame rightWithin)
  | negation _ ih =>
      intro depth taken same within rest settled
      rcases List.map_eq_cons_iff.mp same with ⟨lexeme, operandTaken, rfl, sign, operandSame⟩
      cases depth with
      | zero => exact absurd within (Nat.not_succ_le_zero _)
      | succ depth =>
          obtain ⟨shorter, done⟩ :=
            ih depth operandTaken operandSame (Nat.le_of_succ_le_succ within) rest settled
          refine ⟨Nat.lt_succ_of_lt shorter, ?_⟩
          simp only [List.cons_append, signed, sign, done, Reply.within, andThen, enter]
  | unsigned power ih =>
      intro depth taken same within rest settled
      cases depth with
      | zero => exact absurd within (Nat.not_succ_le_zero _)
      | succ depth =>
          obtain ⟨shorter, done⟩ :=
            ih depth taken same (Nat.le_of_succ_le_succ within) rest settled
          refine ⟨shorter, ?_⟩
          rw [signed_succ_power, done, enter]
          -- No power begins with a minus that the reader could take for a sign.
          have unsigned := power.head_ne_minus (.inl rfl)
          have nonempty := power.tokens_ne_nil
          subst same
          cases taken with
          | nil => exact absurd rfl nonempty
          | cons lexeme taken => simpa using unsigned
  | base _ ih =>
      intro depth taken same within rest settled
      obtain ⟨shorter, resumed⟩ := ih depth taken same within rest
      refine ⟨shorter, ?_⟩
      rw [power, resumed, factorials_settled (settled_mono settled (by omega)), andThen,
        raise_settled settled]
  | raised _ _ baseIh exponentIh =>
      intro depth taken same within rest settled
      rcases List.map_eq_append_iff.mp same with ⟨baseTaken, others, rfl, baseSame, othersSame⟩
      obtain ⟨lexeme, exponentTaken, rfl, sign, exponentSame⟩ :=
        List.map_eq_cons_iff.mp othersSame
      obtain ⟨baseWithin, exponentWithin⟩ := Nat.max_le.mp within
      obtain ⟨shorter, resumed⟩ := baseIh depth baseTaken baseSame baseWithin
        (lexeme :: (exponentTaken ++ rest))
      obtain ⟨progress, done⟩ :=
        exponentIh depth exponentTaken exponentSame exponentWithin rest settled
      have next : Settled 4 (lexeme :: (exponentTaken ++ rest)) :=
        settled_cons (by rw [sign]; decide)
      rw [List.append_assoc, List.cons_append]
      refine ⟨Nat.lt_trans progress (Nat.lt_trans (Nat.lt_succ_self _) shorter), ?_⟩
      rw [power, resumed, factorials_settled next, andThen]
      simp only [raise, sign, done, Reply.within, andThen]
  | plain _ ih =>
      intro depth taken same within rest
      obtain ⟨shorter, done⟩ := ih depth taken same within rest
      exact ⟨shorter, by rw [done, andThen]⟩
  | factorial _ ih =>
      intro depth taken same within rest
      obtain ⟨operandTaken, others, rfl, operandSame, othersSame⟩ :=
        List.map_eq_append_iff.mp same
      rcases List.map_eq_singleton_iff.mp othersSame with ⟨mark, rfl, sign⟩
      obtain ⟨shorter, resumed⟩ := ih depth operandTaken operandSame within (mark :: rest)
      rw [List.append_assoc, List.singleton_append]
      refine ⟨Nat.lt_trans (Nat.lt_succ_self _) shorter, ?_⟩
      rw [resumed]
      simp only [factorials, sign]
  | number value =>
      intro depth taken same within rest
      rcases List.map_eq_singleton_iff.mp same with ⟨lexeme, rfl, literal⟩
      refine ⟨Nat.lt_succ_self _, ?_⟩
      simp only [List.singleton_append, primary, literal]
  | constant known =>
      intro depth taken same within rest
      rcases List.map_eq_singleton_iff.mp same with ⟨lexeme, rfl, named⟩
      refine ⟨Nat.lt_succ_self _, ?_⟩
      simp only [List.singleton_append, primary, named, known, function_named_none known]
  | call known _ ih =>
      intro depth taken same within rest
      rcases List.map_eq_cons_iff.mp same with ⟨lexeme, others, rfl, named, enclosed⟩
      rcases enclosed_reads (fun taken same => ih depth taken same within) enclosed rest with
        ⟨shorter, done⟩
      refine ⟨Nat.lt_succ_of_lt shorter, ?_⟩
      simp only [List.cons_append, primary, named, known, done, Reply.within, andThen]
  | group _ ih =>
      intro depth taken same within rest
      have reads := enclosed_reads (fun taken same => ih depth taken same within) same rest
      rcases List.map_eq_cons_iff.mp same with ⟨first, others, rfl, opening, _⟩
      rw [List.cons_append, primary_opening opening]
      exact reads

end Completeness

end Grammar

section Parse

variable {lexemes taken rest : List Lexeme} {limit : Nat} {tree : Expression}

def Finished (rest : List Lexeme) : Prop := ∀ lexeme ∈ rest.head?, lexeme.token = .finish

theorem contents_finished (ends : Finished rest) : contents rest = [] := by
  cases rest with
  | nil => rfl
  | cons lexeme after => simp [contents, ends lexeme rfl]

theorem contents_append (proper : .finish ∉ taken.map Lexeme.token) :
    contents (taken ++ rest) = taken.map Lexeme.token ++ contents rest := by
  rw [contents, List.map_append, List.takeWhile_append_of_pos]
  · rfl
  · intro token member
    simpa using ne_of_mem_of_not_mem member proper

theorem contents_proper (proper : .finish ∉ taken.map Lexeme.token) :
    contents taken = taken.map Lexeme.token := by
  have appended : contents (taken ++ []) = taken.map Lexeme.token ++ contents [] :=
    contents_append proper
  simpa only [List.append_nil, contents_finished (show Finished [] by simp [Finished])] using
    appended

theorem contents_split (lexemes : List Lexeme) :
    ∃ taken rest, lexemes = taken ++ rest ∧ taken.map Lexeme.token = contents lexemes ∧
      Finished rest := by
  induction lexemes with
  | nil => exact ⟨[], [], rfl, rfl, by simp [Finished]⟩
  | cons lexeme lexemes ih =>
      by_cases closing : lexeme.token = .finish
      · exact ⟨[], lexeme :: lexemes, rfl, by simp [contents, closing], by
          simpa [Finished] using closing⟩
      · rcases ih with ⟨taken, rest, rfl, same, ends⟩
        exact ⟨lexeme :: taken, rest, rfl, by simpa [contents, closing] using same, ends⟩

theorem settled_finished (ends : Finished rest) : Settled 1 rest := by
  intro lexeme next
  rw [ends lexeme next]
  decide

theorem require_end_finished {session : Session} (ends : Finished session.rest) :
    session.requireEnd = .ok () := by
  unfold Session.requireEnd
  split
  · rfl
  · rename_i lexeme after same
    simp only [ends lexeme (by rw [same]; rfl)]

theorem finished_require_end {session : Session} (passed : session.requireEnd = .ok ()) :
    Finished session.rest := by
  unfold Session.requireEnd at passed
  intro lexeme next
  split at passed
  · simp_all
  · split at passed
    · simp_all
    · simp at passed

theorem parse_failed {fault : Fault} {entered : Nat}
    (failed : Grammar.expression limit lexemes = .failed fault rest entered) :
    parse lexemes limit = .error (fault.report limit (endPosition lexemes)) := by
  simp [parse, Session.start, Session.next, failed, bind, Except.bind]

theorem parse_done {shorter : rest.length < lexemes.length}
    (done : Grammar.expression limit lexemes = .done tree rest shorter) :
    parse lexemes limit =
      ({ Session.start lexemes limit with rest }.requireEnd).map fun _ => tree := by
  simp only [parse, Session.start, Session.next, Nat.sub_zero, done, bind, Except.bind]
  cases Session.requireEnd { lexemes, limit, rest, depth := 0 } <;> rfl

theorem parse_iff_derives : parse lexemes limit = .ok tree ↔
    ∃ level, level ≤ limit ∧ Derives .sum (contents lexemes) tree level := by
  constructor
  · intro parsed
    have sound := Grammar.expression_sound limit lexemes
    cases reply : Grammar.expression limit lexemes with
    | failed fault rest entered => simp [parse_failed reply] at parsed
    | done found rest shorter =>
        rw [parse_done reply] at parsed
        cases passed : Session.requireEnd { Session.start lexemes limit with rest } with
        | error fault => simp [passed, Except.map] at parsed
        | ok =>
            rw [passed] at parsed
            cases parsed
            rw [reply] at sound
            obtain ⟨taken, level, split, within, derivation⟩ := sound
            rw [split, contents_append derivation.finish_not_mem,
              contents_finished (finished_require_end passed), List.append_nil]
            exact ⟨level, within, derivation⟩
  · rintro ⟨level, within, derivation⟩
    obtain ⟨taken, rest, split, same, ends⟩ := contents_split lexemes
    have resumes := Grammar.derives_resumes derivation limit taken same within
    obtain ⟨shorter, done⟩ := Grammar.sum_settled resumes (settled_finished ends)
    subst split
    rw [parse_done done, require_end_finished ends]
    rfl

theorem exists_contents {tokens : List Token} (proper : .finish ∉ tokens) :
    ∃ lexemes, contents lexemes = tokens := by
  refine ⟨tokens.map fun token => ⟨token, "", 0⟩, ?_⟩
  have spelled : (tokens.map fun token => Lexeme.mk token "" 0).map Lexeme.token = tokens := by
    simp [Function.comp_def]
  rw [contents_proper (by rwa [spelled]), spelled]

/-- The grammar is unambiguous: a reader that takes the deeper of two derivations finds the
trees of both. -/
theorem derives_unique {tokens : List Token} {left right : Expression}
    {leftLevel rightLevel : Nat} (leftDerivation : Derives .sum tokens left leftLevel)
    (rightDerivation : Derives .sum tokens right rightLevel) : left = right := by
  obtain ⟨lexemes, same⟩ := exists_contents leftDerivation.finish_not_mem
  have leftParsed := parse_iff_derives.mpr
    ⟨leftLevel, Nat.le_max_left leftLevel rightLevel, same ▸ leftDerivation⟩
  have rightParsed := parse_iff_derives.mpr
    ⟨rightLevel, Nat.le_max_right leftLevel rightLevel, same ▸ rightDerivation⟩
  rw [leftParsed] at rightParsed
  exact Except.ok.inj rightParsed

/-- Parsing is the grammar: within a limit it finds exactly the trees that the tokens in
front of the first closing mark derive at a level up to the limit, and there is at most
one such tree. -/
theorem parse_exactly_grammar :
    (∀ lexemes limit tree, parse lexemes limit = .ok tree ↔
      ∃ level, level ≤ limit ∧ Derives .sum (contents lexemes) tree level) ∧
    ∀ tokens, Subsingleton { tree // ∃ level, Derives .sum tokens tree level } := by
  refine ⟨fun _ _ _ => parse_iff_derives, fun tokens => ⟨?_⟩⟩
  rintro ⟨left, leftLevel, leftDerivation⟩ ⟨right, rightLevel, rightDerivation⟩
  exact Subtype.ext (derives_unique leftDerivation rightDerivation)

/-- Differences group to the left, a second minus is a sign, and what stands behind a
closing mark is not looked at: `e-π--e`, a closing mark, `)`. -/
theorem parse_exactly_grammar_difference :
    parse [⟨.name "e", "e", 0⟩, ⟨.minus, "-", 1⟩, ⟨.name "π", "π", 2⟩, ⟨.minus, "-", 3⟩,
      ⟨.minus, "-", 4⟩, ⟨.name "e", "e", 5⟩, ⟨.finish, "", 6⟩, ⟨.closing, ")", 6⟩] 2 =
    .ok (.binary .subtract (.binary .subtract (.constant .e) (.constant .pi))
      (.unary .negate (.constant .e))) := by
  have left : Derives .sum [.name "e"] (.constant .e) 1 :=
    .term (.factor (.unsigned (.base (.plain (.constant rfl)))))
  have middle : Derives .product [.name "π"] (.constant .pi) 1 :=
    .factor (.unsigned (.base (.plain (.constant rfl))))
  have right : Derives .product [.minus, .name "e"] (.unary .negate (.constant .e)) 2 :=
    .factor (.negation (.unsigned (.base (.plain (.constant rfl)))))
  exact (parse_exactly_grammar.1 _ _ _).mpr
    ⟨2, Nat.le_refl 2, .join .minus (.join .minus left middle) right⟩

end Parse

end Calculator
