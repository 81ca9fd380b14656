import Calculator.Calculation
import Calculator.Proofs.Printing

/-!
# Sources built from sources

A source in parentheses stands for the same tree whatever is written around it, so the
trees, the values and the failures of compound sources are those of their parts. Two
levels of nesting more than the parts need are enough.
-/

namespace Calculator

/-- The characters form the tree as a phrase of the given kind, nested to the level. -/
def Writes (phrase : Phrase) (source : List Char) (tree : Expression) (level : Nat) : Prop :=
  ∃ tokens, Scans source tokens ∧ Derives phrase tokens tree level

/-- The spellings of an operation between its operands. -/
def BinaryOperator.signs : BinaryOperator → List String
  | .add => ["+"]
  | .subtract => ["-"]
  | .multiply => ["*", "×"]
  | .divide => ["/", "÷"]
  | .power => ["^"]

/-- The outcome of an operation at the root of a tree; its value must be finite. -/
def settle (tree : Expression) : Except EvalError Float → Except Failure Float
  | .error error => .error (.evaluation error)
  | .ok value =>
      if Binary64.isFinite value then .ok value
      else .error (.evaluation (.domain (.notFinite tree)))

/-- Within the limit the source is read as the tree, and calculated it comes to `value`. -/
def Yields (limit : Nat) (source : String) (tree : Expression)
    (value : Elementary → AngleMode → Except Failure Float) : Prop :=
  readExpression limit source = .ok tree ∧
    ∀ library mode, calculate library mode limit source = value library mode

variable {depth inner limit level leftLevel rightLevel : Nat} {source first second : String}
  {text leftText rightText : List Char} {tree left right : Expression}
  {library : Elementary} {mode : AngleMode} {token : Token} {character : Char}

/-! What is read, and what may be written around it. -/

theorem read_iff_writes : readExpression limit source = .ok tree ↔
    ∃ level, level ≤ limit ∧ Writes .sum source.toList tree level := by
  constructor
  · intro read
    cases scanned : lexemes source with
    | error unknown => simp [readExpression, scanned, Except.mapError, bind, Except.bind] at read
    | ok found =>
        have parsed : parse found limit = .ok tree := by
          cases parsed : parse found limit <;>
            simp_all [readExpression, Except.mapError, bind, Except.bind]
        obtain ⟨level, within, derivation⟩ := parse_iff_derives.mp parsed
        exact ⟨level, within, _, scans_iff_lexemes.mpr ⟨found, scanned, rfl⟩, derivation⟩
  · rintro ⟨level, within, tokens, scans, derivation⟩
    obtain ⟨found, scanned, rfl⟩ := scans_iff_lexemes.mp scans
    have parsed := parse_iff_derives.mpr ⟨level, within, derivation⟩
    simp [readExpression, scanned, parsed, Except.mapError, bind, Except.bind]

theorem read_within (read : readExpression depth source = .ok tree) (within : depth ≤ limit) :
    readExpression limit source = .ok tree := by
  obtain ⟨level, enough, writes⟩ := read_iff_writes.mp read
  exact read_iff_writes.mpr ⟨level, enough.trans within, writes⟩

theorem scans_enclosed {tokens following : List Token} {rest : List Char}
    (scans : Scans text tokens) (others : Scans rest following) :
    Scans ('(' :: (text ++ ')' :: rest)) (.opening :: (tokens ++ .closing :: following)) :=
  scans_symbol rfl (scans_append scans (boundary_symbol rfl) (scans_symbol rfl others))

theorem group_writes (writes : Writes .sum text tree level) :
    Writes .primary ('(' :: (text ++ [')'])) tree level := by
  obtain ⟨tokens, scans, derivation⟩ := writes
  exact ⟨_, scans_enclosed scans scans_nil, .group derivation⟩

theorem primary_writes (writes : Writes .primary text tree level) :
    Writes .sum text tree (level + 1) := by
  obtain ⟨tokens, scans, derivation⟩ := writes
  exact ⟨tokens, scans, .term (.factor derivation.primary_signed)⟩

theorem negation_writes (writes : Writes .primary text tree level) :
    Writes .sum ('-' :: text) (.unary .negate tree) (level + 2) := by
  obtain ⟨tokens, scans, derivation⟩ := writes
  exact ⟨_, scans_symbol rfl scans, .term (.factor (.negation derivation.primary_signed))⟩

theorem factorial_writes (writes : Writes .primary text tree level) :
    Writes .sum (text ++ ['!']) (.unary .factorial tree) (level + 1) := by
  obtain ⟨tokens, scans, derivation⟩ := writes
  exact ⟨_, scans_append scans (boundary_symbol rfl) (scans_symbol rfl scans_nil),
    .term (.factor (.unsigned (.base (.factorial (.plain derivation)))))⟩

theorem call_writes {spelling : String} {function : Function}
    (named : Function.named? spelling = some function) (writes : Writes .sum text tree level) :
    Writes .primary (spelling.toList ++ '(' :: (text ++ [')'])) (.call function tree) level := by
  obtain ⟨tokens, scans, derivation⟩ := writes
  exact ⟨_, scans_function named (boundary_symbol rfl) (scans_enclosed scans scans_nil),
    .call named derivation⟩

theorem sign_symbol {operator : BinaryOperator} {sign : String} (listed : sign ∈ operator.signs) :
    ∃ character, sign.toList = [character] ∧
      Segment.symbols.lookup character = some operator.token := by
  cases operator <;> simp only [BinaryOperator.signs, List.mem_cons, List.not_mem_nil, or_false]
    at listed <;> rcases listed with rfl | rfl <;> exact ⟨_, rfl, rfl⟩

theorem infix_writes {operator : BinaryOperator} {sign : String}
    (listed : sign ∈ operator.signs) (leftWrites : Writes .primary leftText left leftLevel)
    (rightWrites : Writes .primary rightText right rightLevel) :
    ∃ level, level ≤ max leftLevel rightLevel + 2 ∧
      Writes .sum (leftText ++ sign.toList ++ rightText) (.binary operator left right) level := by
  obtain ⟨leftTokens, leftScans, leftDerivation⟩ := leftWrites
  obtain ⟨rightTokens, rightScans, rightDerivation⟩ := rightWrites
  obtain ⟨character, spelled, symbol⟩ := sign_symbol listed
  obtain ⟨level, within, derivation⟩ := infix_derives operator leftDerivation rightDerivation
  refine ⟨level, within, _, ?_, derivation⟩
  rw [spelled, List.append_assoc]
  exact scans_append leftScans (boundary_symbol symbol) (scans_symbol symbol rightScans)

/-! What a source that was read comes to. -/

theorem mapError_bind {failure error value result : Type} (wrap : error → failure)
    (outcome : Except error value) (next : value → Except error result) :
    (outcome >>= next).mapError wrap = outcome.mapError wrap >>= fun found =>
      (next found).mapError wrap := by
  cases outcome <;> rfl

theorem settle_require_finite (outcome : Except EvalError Float) :
    (outcome >>= tree.requireFinite).mapError .evaluation = settle tree outcome := by
  cases outcome with
  | error error => rfl
  | ok value =>
      simp only [bind, Except.bind, Expression.requireFinite, settle]
      split <;> rfl

theorem calculate_read (read : readExpression limit source = .ok tree) :
    calculate library mode limit source =
      (tree.evaluate library mode).mapError .evaluation := by
  simp [calculate, read, bind, Except.bind]

theorem unary_value (read : readExpression inner source = .ok tree) (operator : UnaryOperator)
    (library : Elementary) (mode : AngleMode) :
    ((Expression.unary operator tree).evaluate library mode).mapError Failure.evaluation = (do
      let operand ← calculate library mode inner source
      settle (.unary operator tree) (operator.apply operand)) := by
  rw [calculate_read read, Expression.evaluate, mapError_bind]
  simp only [settle_require_finite]

theorem call_value (read : readExpression inner source = .ok tree) (function : Function)
    (library : Elementary) (mode : AngleMode) :
    ((Expression.call function tree).evaluate library mode).mapError Failure.evaluation = (do
      let argument ← calculate library mode inner source
      settle (.call function tree) (function.apply library mode argument)) := by
  rw [calculate_read read, Expression.evaluate, mapError_bind]
  simp only [settle_require_finite]

theorem binary_value (readLeft : readExpression inner first = .ok left)
    (readRight : readExpression inner second = .ok right) (operator : BinaryOperator)
    (library : Elementary) (mode : AngleMode) :
    ((Expression.binary operator left right).evaluate library mode).mapError
        Failure.evaluation = (do
      let leftOperand ← calculate library mode inner first
      let rightOperand ← calculate library mode inner second
      settle (.binary operator left right) (operator.apply library leftOperand rightOperand)) := by
  rw [calculate_read readLeft, calculate_read readRight, Expression.evaluate, mapError_bind]
  refine congrArg _ (funext fun leftOperand => ?_)
  rw [mapError_bind]
  simp only [settle_require_finite]

theorem yields_read {value : Elementary → AngleMode → Except Failure Float}
    (read : readExpression limit source = .ok tree)
    (valued : ∀ library mode,
      (tree.evaluate library mode).mapError .evaluation = value library mode) :
    Yields limit source tree value :=
  ⟨read, fun library mode => (calculate_read read).trans (valued library mode)⟩

/-- Two sources that are read within `depth` may be put in parentheses and joined to
larger sources, which are read within two levels more. No operator of a part escapes its
parentheses, and the outcome is that of the operation on the outcomes of the parts, the
first part first. -/
theorem sources_compose (readFirst : readExpression depth first = .ok left)
    (readSecond : readExpression depth second = .ok right) (within : depth ≤ inner)
    (enough : depth + 2 ≤ limit) :
    (Yields limit ("(" ++ first ++ ")") left fun library mode =>
      calculate library mode inner first) ∧
    (Yields limit ("-(" ++ first ++ ")") (.unary .negate left) fun library mode => do
      let operand ← calculate library mode inner first
      settle (.unary .negate left) (UnaryOperator.negate.apply operand)) ∧
    (Yields limit ("(" ++ first ++ ")!") (.unary .factorial left) fun library mode => do
      let operand ← calculate library mode inner first
      settle (.unary .factorial left) (UnaryOperator.factorial.apply operand)) ∧
    (∀ spelling function, Function.named? spelling = some function →
      Yields limit (spelling ++ "(" ++ first ++ ")") (.call function left)
        fun library mode => do
          let argument ← calculate library mode inner first
          settle (.call function left) (function.apply library mode argument)) ∧
    ∀ operator : BinaryOperator, ∀ sign ∈ operator.signs,
      Yields limit ("(" ++ first ++ ")" ++ sign ++ "(" ++ second ++ ")")
        (.binary operator left right) (fun library mode => do
          let leftOperand ← calculate library mode inner first
          let rightOperand ← calculate library mode inner second
          settle (.binary operator left right)
            (operator.apply library leftOperand rightOperand)) := by
  have readInner := read_within readFirst within
  have otherInner := read_within readSecond within
  obtain ⟨leftLevel, leftEnough, leftWrites⟩ := read_iff_writes.mp readFirst
  obtain ⟨rightLevel, rightEnough, rightWrites⟩ := read_iff_writes.mp readSecond
  have leftGroup := group_writes leftWrites
  have rightGroup := group_writes rightWrites
  -- A whole source of at most two levels more is read; only its characters are compared.
  have reads : ∀ {source text tree level}, Writes .sum text tree level → level ≤ depth + 2 →
      source.toList = text → readExpression limit source = .ok tree :=
    fun writes fits same => read_iff_writes.mpr ⟨_, fits.trans enough, same ▸ writes⟩
  refine ⟨?_, ?_, ?_, fun spelling function named => ?_, fun operator sign listed => ?_⟩
  · exact yields_read (reads (primary_writes leftGroup) (by omega) (by simp))
      fun library mode => (calculate_read readInner).symm
  · exact yields_read (reads (negation_writes leftGroup) (by omega) (by simp))
      (unary_value readInner .negate)
  · exact yields_read (reads (factorial_writes leftGroup) (by omega) (by simp))
      (unary_value readInner .factorial)
  · exact yields_read (reads (primary_writes (call_writes named leftWrites)) (by omega) (by simp))
      (call_value readInner function)
  · obtain ⟨level, fits, writes⟩ := infix_writes listed leftGroup rightGroup
    exact yields_read (reads writes (by omega) (by simp))
      (binary_value readInner otherInner operator)

/-- A power whose exponent needs two levels by itself needs four. -/
theorem sources_compose_power :
    readExpression 2 "e+π" = .ok (.binary .add (.constant .e) (.constant .pi)) ∧
      readExpression 2 "-e" = .ok (.unary .negate (.constant .e)) ∧
      readExpression 3 "(e+π)^(-e)" = .error (.parse (.tooComplex 3)) ∧
      readExpression 4 "(e+π)^(-e)" = .ok (.binary .power
        (.binary .add (.constant .e) (.constant .pi)) (.unary .negate (.constant .e))) := by
  have first : readExpression 2 "e+π" = .ok (.binary .add (.constant .e) (.constant .pi)) := by
    decide +kernel
  have second : readExpression 2 "-e" = .ok (.unary .negate (.constant .e)) := by
    decide +kernel
  obtain ⟨_, _, _, _, joined⟩ := sources_compose first second (Nat.le_refl 2) (Nat.le_refl 4)
  exact ⟨first, second, by decide +kernel, (joined .power "^" (by decide)).1⟩

end Calculator
