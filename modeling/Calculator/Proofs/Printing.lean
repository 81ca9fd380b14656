import Calculator.Expression
import Calculator.Proofs.Reading
import Calculator.Proofs.Scanning

/-!
# Trees are read back from their text

The text of a tree puts parentheses around every operation, so it is a primary phrase.
Each level of the tree costs at most two levels of nesting: one for the operand of an
operation and one more behind a minus or a power.
-/

namespace Calculator

def BinaryOperator.token : BinaryOperator → Token
  | .add => .plus
  | .subtract => .minus
  | .multiply => .times
  | .divide => .divide
  | .power => .power

/-- Between two primaries every operation fits two levels above the deeper one. -/
theorem infix_derives {leftTokens rightTokens : List Token} {left right : Expression}
    {leftLevel rightLevel : Nat} (operator : BinaryOperator)
    (leftDerivation : Derives .primary leftTokens left leftLevel)
    (rightDerivation : Derives .primary rightTokens right rightLevel) :
    ∃ level, level ≤ max leftLevel rightLevel + 2 ∧
      Derives .sum (leftTokens ++ operator.token :: rightTokens)
        (.binary operator left right) level := by
  have leftSigned := leftDerivation.primary_signed
  have rightSigned := rightDerivation.primary_signed
  cases operator with
  | add => exact ⟨_, by omega, .join .plus (.term (.factor leftSigned)) (.factor rightSigned)⟩
  | subtract =>
      exact ⟨_, by omega, .join .minus (.term (.factor leftSigned)) (.factor rightSigned)⟩
  | multiply => exact ⟨_, by omega, .term (.join .times (.factor leftSigned) rightSigned)⟩
  | divide => exact ⟨_, by omega, .term (.join .divide (.factor leftSigned) rightSigned)⟩
  | power =>
      exact ⟨_, by omega, .term (.factor (.unsigned
        (.raised (.plain leftDerivation) rightSigned)))⟩

namespace Expression

/-- The tokens of the text of a tree. -/
def tokens : Expression → List Token
  | .number value => [.number value]
  | .constant named => [.name named.name]
  | .unary .negate operand => .opening :: (.minus :: operand.tokens ++ [.closing])
  | .unary .factorial operand => .opening :: (operand.tokens ++ [.factorial] ++ [.closing])
  | .binary operator left right =>
      .opening :: (left.tokens ++ operator.token :: right.tokens ++ [.closing])
  | .call function argument => .name function.name :: .opening :: (argument.tokens ++ [.closing])

def literals : Expression → List Float
  | .number value => [value]
  | .constant _ => []
  | .unary _ operand => operand.literals
  | .binary _ left right => left.literals ++ right.literals
  | .call _ argument => argument.literals

/-- Every literal is finite and its sign bit is clear. -/
def Unsigned (tree : Expression) : Prop :=
  ∀ value ∈ tree.literals, ∃ quanta, Binary64.view value = .finite false quanta

variable {tree : Expression} {rest : List Char} {following : List Token}

theorem tokens_derive (tree : Expression) :
    ∃ level, Derives .primary tree.tokens tree level ∧ level + 2 ≤ 2 * tree.depth := by
  induction tree with
  | number value => exact ⟨0, .number value, Nat.le_refl 2⟩
  | constant named => exact ⟨0, .constant named.named_name, Nat.le_refl 2⟩
  | unary operator operand ih =>
      rcases ih with ⟨level, derivation, within⟩
      cases operator with
      | negate =>
          exact ⟨level + 2, .group (.term (.factor (.negation derivation.primary_signed))), by
            simp only [depth]; omega⟩
      | factorial =>
          exact ⟨level + 1, .group (.term (.factor (.unsigned (.base
            (.factorial (.plain derivation)))))), by simp only [depth]; omega⟩
  | binary operator left right leftIh rightIh =>
      rcases leftIh with ⟨leftLevel, leftDerivation, leftWithin⟩
      rcases rightIh with ⟨rightLevel, rightDerivation, rightWithin⟩
      obtain ⟨level, within, derivation⟩ :=
        infix_derives operator leftDerivation rightDerivation
      exact ⟨level, .group derivation, by simp only [depth]; omega⟩
  | call function argument ih =>
      rcases ih with ⟨level, derivation, within⟩
      exact ⟨level + 1, .call function.named_name (.term (.factor derivation.primary_signed)), by
        simp only [depth]; omega⟩

theorem scans_opening (scans : Scans rest following) :
    Scans ('(' :: rest) (.opening :: following) :=
  scans_symbol rfl scans

theorem scans_closing (scans : Scans rest following) :
    Scans (')' :: rest) (.closing :: following) :=
  scans_symbol rfl scans

theorem symbol_scans (operator : BinaryOperator) (scans : Scans rest following) :
    Scans (operator.symbol.toList ++ rest) (operator.token :: following) := by
  cases operator <;> exact scans_symbol rfl scans

theorem scans_text (unsigned : tree.Unsigned) (boundary : Boundary rest)
    (scans : Scans rest following) :
    Scans (tree.text.toList ++ rest) (tree.tokens ++ following) := by
  -- A part is scanned after what follows it, so the parts are taken from the right.
  induction tree generalizing rest following with
  | number value =>
      rcases unsigned value (by simp [literals]) with ⟨quanta, finite⟩
      rcases plain_written finite with ⟨whole, fraction, written⟩
      have scanned := scans_number written boundary scans
      rwa [plain_reads_back finite] at scanned
  | constant named =>
      cases named with
      | pi => exact scans_symbol rfl scans
      | e => exact scans_word (by decide) (by decide) (by decide) boundary scans
  | unary operator operand ih =>
      have plain : operand.Unsigned := unsigned
      cases operator with
      | negate =>
          have inner := ih plain (boundary_cons (by decide)) (scans_closing scans)
          have scanned : Scans ('(' :: '-' :: (operand.text.toList ++ ')' :: rest)) _ :=
            scans_opening (scans_symbol rfl inner)
          simpa [text, tokens] using scanned
      | factorial =>
          have mark : Scans ('!' :: ')' :: rest) _ :=
            scans_symbol rfl (scans_closing scans)
          have inner := ih plain (boundary_cons (by decide)) mark
          simpa [text, tokens] using scans_opening inner
  | binary operator left right leftIh rightIh =>
      have leftPlain : left.Unsigned := fun value member =>
        unsigned value (List.mem_append_left _ member)
      have rightPlain : right.Unsigned := fun value member =>
        unsigned value (List.mem_append_right _ member)
      have second := rightIh rightPlain (boundary_cons (by decide)) (scans_closing scans)
      have symbol := scans_space (symbol_scans operator (scans_space second))
      have scanned := scans_opening (leftIh leftPlain (boundary_cons (by decide)) symbol)
      cases operator <;> simpa [text, tokens] using scanned
  | call function argument ih =>
      have inner := ih unsigned (boundary_cons (by decide)) (scans_closing scans)
      have scanned := scans_function function.named_name (boundary_cons (by decide))
        (scans_opening inner)
      simpa [text, tokens] using scanned

theorem text_scanned (unsigned : tree.Unsigned) :
    ∃ found, lexemes tree.text = .ok found ∧ contents found = tree.tokens := by
  have ends : Boundary [] := by simp [Boundary]
  have scans := scans_text unsigned ends scans_nil
  rw [List.append_nil, List.append_nil] at scans
  exact scans_iff_lexemes.mp scans

/-- The text of a tree with finite literals without signs scans, and its tokens are parsed
to the very same tree whenever twice its depth, less one, is within the limit. -/
theorem text_parses_back (tree : Expression) (unsigned : tree.Unsigned) :
    ∃ found, lexemes tree.text = .ok found ∧
      ∀ limit, 2 * tree.depth - 1 ≤ limit → parse found limit = .ok tree := by
  rcases text_scanned unsigned with ⟨found, scanned, spelled⟩
  rcases tree.tokens_derive with ⟨level, derivation, within⟩
  refine ⟨found, scanned, fun limit enough => ?_⟩
  refine parse_iff_derives.mpr ⟨level + 1, by omega, ?_⟩
  rw [spelled]
  exact .term (.factor (.unsigned (.base (.plain derivation))))

/-- Signs and powers alone reach the bound: a tree of depth four needs seven levels. -/
theorem text_parses_back_signs :
    let tree : Expression := .unary .negate (.binary .power (.constant .pi)
      (.unary .negate (.number (.ofBits 0x4004000000000000))))
    tree.Unsigned ∧ tree.text = "(-(π ^ (-2.5)))" ∧
      ∃ found, lexemes tree.text = .ok found ∧ parse found 7 = .ok tree := by
  intro tree
  have written : tree.text = "(-(π ^ (-2.5)))" := by decide +kernel
  have unsigned : tree.Unsigned := by
    intro value member
    rcases List.mem_singleton.mp member with rfl
    exact ⟨_, rfl⟩
  rcases text_parses_back tree unsigned with ⟨found, scanned, parsed⟩
  exact ⟨unsigned, written, found, scanned, parsed 7 (by decide)⟩

end Expression

end Calculator
