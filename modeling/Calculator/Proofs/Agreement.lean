import Calculator.Proofs.Composition
import Calculator.Proofs.Nearest

/-!
# Equal trees, equal texts, equal values

Numerical equality is no equality of doubles: zeros of both signs agree, and an undefined
value does not agree with itself. What is read from digits has no sign and is defined, though
it may be infinite. Among trees with such literals agreement is equality, and the text of a
tree shows every part of it.
-/

namespace Calculator

namespace Binary64

/-- A finite or infinite number without a sign. -/
def IsMagnitude (value : Float) : Prop :=
  (∃ quanta, view value = .finite false quanta) ∨ view value = .infinite false

variable {value left right : Float}

theorem nearest_magnitude (numerator denominator : Nat) :
    IsMagnitude (nearest numerator denominator) := by
  have most : nearestBits numerator denominator ≤ infinityBits := Nat.min_le_right _ _
  rcases most.lt_or_eq with below | largest
  · exact .inl ⟨_, view_of_bits below⟩
  · refine .inr ?_
    rw [nearest, largest]
    decide +kernel

theorem infinite_bits (infinite : view value = .infinite false) :
    value.toBits.toNat = infinityBits := by
  have word := value.toBits.toNat_lt
  simp only [view] at infinite
  split_ifs at infinite with largest zero
  simp only [View.infinite.injEq, decide_eq_false_iff_not] at infinite
  simp only [infinityBits, implicitBit] at *
  omega

theorem magnitude_ext (magnitude : IsMagnitude left) (same : view left = view right) :
    left = right := by
  rcases magnitude with ⟨quanta, finite⟩ | infinite
  · rw [← nearest_view finite, nearest_view (same ▸ finite)]
  · apply Float.toBits_inj.mp
    apply UInt64.toNat_inj.mp
    rw [infinite_bits infinite, infinite_bits (same ▸ infinite)]

/-- Numerical equality tells magnitudes apart. -/
theorem magnitude_agree_iff (leftMagnitude : IsMagnitude left)
    (rightMagnitude : IsMagnitude right) : agree left right ↔ left = right := by
  refine ⟨fun agreed => magnitude_ext leftMagnitude ?_, ?_⟩
  · rcases leftMagnitude with ⟨leftQuanta, leftView⟩ | leftView <;>
      rcases rightMagnitude with ⟨rightQuanta, rightView⟩ | rightView <;>
      rw [leftView, rightView]
    · simp only [agree, leftView, rightView] at agreed
      split at agreed <;> simp_all
    · simp [agree, leftView, rightView] at agreed
    · simp [agree, leftView, rightView] at agreed
  · rintro rfl
    rcases leftMagnitude with ⟨quanta, finite⟩ | infinite
    · cases quanta <;> simp [agree, finite]
    · simp [agree, infinite]

end Binary64

open Binary64

/-! The texts of literals and names end where no character continues them -/

/-- A character of numbers and names. -/
def IsWordPart (character : Char) : Bool :=
  character.isDigit || character = '.' || character.isAlpha

variable {value other : Float} {first second rest after : List Char} {character : Char}

theorem boundary_stops (boundary : Boundary rest) : rest.takeWhile IsWordPart = [] := by
  cases rest with
  | nil => rfl
  | cons next others =>
      obtain ⟨noDigit, noPoint, noLetter⟩ := boundary next rfl
      simp [IsWordPart, noDigit, noPoint, noLetter]

/-- A word and what is written behind it are found again in their concatenation. -/
theorem word_append_injective (firstParts : ∀ part ∈ first, IsWordPart part)
    (secondParts : ∀ part ∈ second, IsWordPart part) (boundary : Boundary rest)
    (boundaryAfter : Boundary after) (same : first ++ rest = second ++ after) :
    first = second ∧ rest = after := by
  have words := congrArg (List.takeWhile IsWordPart) same
  rw [List.takeWhile_append_of_pos firstParts, List.takeWhile_append_of_pos secondParts,
    boundary_stops boundary, boundary_stops boundaryAfter, List.append_nil, List.append_nil]
    at words
  subst words
  exact ⟨rfl, List.append_cancel_left same⟩

theorem plain_infinite (infinite : view value = .infinite false) : Numeral.plain value = "inf" := by
  simp [Numeral.plain, infinite, Numeral.signed]

theorem written_parts {text whole fraction : List Char}
    (written : Decimal.Written text whole fraction) : ∀ part ∈ text, IsWordPart part := by
  intro part member
  rw [written.split] at member
  rcases List.mem_append.mp member with inWhole | behind
  · simp [IsWordPart, written.wholeDigits part inWhole]
  · cases fraction with
    | nil => simp at behind
    | cons place places =>
        rcases List.mem_cons.mp behind with rfl | inFraction
        · rfl
        · simp [IsWordPart, written.fractionDigits part inFraction]

theorem written_head {text whole fraction : List Char}
    (written : Decimal.Written text whole fraction) :
    ∃ digit others, text = digit :: others ∧ digit.isDigit := by
  obtain ⟨digit, others, rfl⟩ := List.exists_cons_of_ne_nil written.nonempty
  exact ⟨digit, _, written.split, written.wholeDigits digit (List.mem_cons_self ..)⟩

theorem plain_parts (magnitude : IsMagnitude value) :
    ∀ part ∈ (Numeral.plain value).toList, IsWordPart part := by
  rcases magnitude with ⟨quanta, finite⟩ | infinite
  · obtain ⟨whole, fraction, written⟩ := plain_written finite
    exact written_parts written
  · rw [plain_infinite infinite]
    exact List.all_eq_true.mp rfl

/-- A literal begins with a digit, or with the first letter of `inf`. -/
theorem plain_head (magnitude : IsMagnitude value) : ∃ initial others,
    (Numeral.plain value).toList = initial :: others ∧ (initial.isDigit ∨ initial = 'i') := by
  rcases magnitude with ⟨quanta, finite⟩ | infinite
  · obtain ⟨whole, fraction, written⟩ := plain_written finite
    obtain ⟨digit, others, split, isDigit⟩ := written_head written
    exact ⟨digit, others, split, .inl isDigit⟩
  · rw [plain_infinite infinite]
    exact ⟨'i', ['n', 'f'], rfl, .inr rfl⟩

theorem plain_finite_ne {quanta : Nat} (finite : view value = .finite false quanta) :
    Numeral.plain value ≠ "inf" := by
  intro spelled
  obtain ⟨whole, fraction, written⟩ := plain_written finite
  obtain ⟨digit, others, split, isDigit⟩ := written_head written
  rw [spelled] at split
  obtain ⟨rfl, _⟩ := List.cons.inj split
  exact absurd isDigit (by decide)

theorem plain_injective (magnitude : IsMagnitude value) (otherMagnitude : IsMagnitude other)
    (same : Numeral.plain value = Numeral.plain other) : value = other := by
  rcases magnitude with ⟨quanta, finite⟩ | infinite
  · rcases otherMagnitude with ⟨otherQuanta, otherFinite⟩ | otherInfinite
    · rw [← plain_reads_back finite, same, plain_reads_back otherFinite]
    · exact absurd (same.trans (plain_infinite otherInfinite)) (plain_finite_ne finite)
  · rcases otherMagnitude with ⟨otherQuanta, otherFinite⟩ | otherInfinite
    · exact absurd (same.symm.trans (plain_infinite infinite)) (plain_finite_ne otherFinite)
    · exact magnitude_ext (.inr infinite) (infinite.trans otherInfinite.symm)

namespace Expression

/-- Every literal is a finite or infinite number without a sign. -/
def Magnitudes (tree : Expression) : Prop := ∀ value ∈ tree.literals, IsMagnitude value

variable {tree left right : Expression}

theorem magnitudes_binary {operator : BinaryOperator}
    (magnitudes : (binary operator left right).Magnitudes) :
    left.Magnitudes ∧ right.Magnitudes :=
  ⟨fun value member => magnitudes value (List.mem_append_left _ member),
    fun value member => magnitudes value (List.mem_append_right _ member)⟩

/-- Trees of magnitudes that agree are the same. -/
theorem agrees_iff_eq (leftMagnitudes : left.Magnitudes) (rightMagnitudes : right.Magnitudes) :
    left.agrees right ↔ left = right := by
  induction left generalizing right with
  | number value =>
      cases right <;> simp only [agrees, reduceCtorEq, Bool.false_eq_true]
      rename_i other
      rw [magnitude_agree_iff (leftMagnitudes value (List.mem_singleton_self _))
        (rightMagnitudes other (List.mem_singleton_self _)), number.injEq]
  | constant named => cases right <;> simp [agrees]
  | unary operator operand ih =>
      cases right <;> simp only [agrees, reduceCtorEq, Bool.false_eq_true]
      rename_i otherOperator otherOperand
      have same := @ih otherOperand leftMagnitudes rightMagnitudes
      simp [same]
  | binary operator first second firstIh secondIh =>
      cases right <;> simp only [agrees, reduceCtorEq, Bool.false_eq_true]
      obtain ⟨firstMagnitudes, secondMagnitudes⟩ := magnitudes_binary leftMagnitudes
      obtain ⟨thirdMagnitudes, fourthMagnitudes⟩ := magnitudes_binary rightMagnitudes
      simp [firstIh firstMagnitudes thirdMagnitudes, secondIh secondMagnitudes fourthMagnitudes,
        and_assoc]
  | call function argument ih =>
      cases right <;> simp only [agrees, reduceCtorEq, Bool.false_eq_true]
      rename_i otherFunction otherArgument
      have same := @ih otherArgument leftMagnitudes rightMagnitudes
      simp [same]

/-! The texts in front of further characters -/

theorem negation_text (operand : Expression) (rest : List Char) :
    (unary .negate operand).text.toList ++ rest =
      '(' :: '-' :: (operand.text.toList ++ ')' :: rest) := by
  simp [text]

theorem factorial_text (operand : Expression) (rest : List Char) :
    (unary .factorial operand).text.toList ++ rest =
      '(' :: (operand.text.toList ++ '!' :: ')' :: rest) := by
  simp [text]

theorem binary_text (operator : BinaryOperator) (left right : Expression) (rest : List Char) :
    (binary operator left right).text.toList ++ rest = '(' :: (left.text.toList ++ ' ' ::
      (operator.symbol.toList ++ ' ' :: (right.text.toList ++ ')' :: rest))) := by
  simp [text]

theorem call_text (function : Function) (argument : Expression) (rest : List Char) :
    (call function argument).text.toList ++ rest =
      function.name.toList ++ '(' :: (argument.text.toList ++ ')' :: rest) := by
  simp [text]

/-! What the first character of a text tells about its tree -/

/-- The kinds of trees that a first character can tell apart. -/
inductive Shape
  | number
  | constant
  | operation
  | call
deriving DecidableEq, Repr

def shape : Expression → Shape
  | .number _ => .number
  | .constant _ => .constant
  | .unary _ _ | .binary _ _ _ => .operation
  | .call _ _ => .call

def shapeOf? (initial : Char) : Option Shape :=
  if initial.isDigit || initial = 'i' then some .number
  else if initial = 'π' || initial = 'e' then some .constant
  else if initial = '(' then some .operation
  else if initial = '-' then none
  else some .call

theorem text_head (magnitudes : tree.Magnitudes) (rest : List Char) : ∃ initial others,
    tree.text.toList ++ rest = initial :: others ∧ shapeOf? initial = some tree.shape := by
  cases tree with
  | number value =>
      obtain ⟨initial, others, split, begins⟩ :=
        plain_head (magnitudes value (List.mem_singleton_self _))
      exact ⟨initial, others ++ rest, congrArg (· ++ rest) split, if_pos (by simpa using begins)⟩
  | constant named => cases named <;> exact ⟨_, rest, rfl, rfl⟩
  | unary operator operand =>
      cases operator with
      | negate => exact ⟨'(', _, negation_text operand rest, rfl⟩
      | factorial => exact ⟨'(', _, factorial_text operand rest, rfl⟩
  | binary operator left right => exact ⟨'(', _, binary_text operator left right rest, rfl⟩
  | call function argument => cases function <;> exact ⟨_, _, call_text _ argument rest, rfl⟩

/-- The same text, whatever is written behind it, belongs to trees of one kind. -/
theorem same_shape (leftMagnitudes : left.Magnitudes) (rightMagnitudes : right.Magnitudes)
    (same : left.text.toList ++ rest = right.text.toList ++ after) : left.shape = right.shape := by
  obtain ⟨initial, others, split, shows⟩ := text_head leftMagnitudes rest
  obtain ⟨other, remaining, otherSplit, otherShows⟩ := text_head rightMagnitudes after
  rw [split, otherSplit] at same
  obtain ⟨rfl, _⟩ := List.cons.inj same
  exact Option.some.inj (shows.symm.trans otherShows)

theorem text_ne_minus (magnitudes : tree.Magnitudes) : '-' :: after ≠ tree.text.toList ++ rest := by
  obtain ⟨initial, others, split, shows⟩ := text_head magnitudes rest
  rw [split]
  intro same
  obtain ⟨rfl, _⟩ := List.cons.inj same
  cases shows

theorem boundary_mark {mark : Char} (listed : mark ∈ ['!', ')', ' ', '(']) (rest : List Char) :
    Boundary (mark :: rest) := by
  simp only [List.mem_cons, List.not_mem_nil, or_false] at listed
  rcases listed with rfl | rfl | rfl | rfl <;> exact boundary_cons ⟨rfl, by decide, rfl⟩

theorem symbol_injective {first second : BinaryOperator}
    (same : first.symbol.toList ++ rest = second.symbol.toList ++ after) :
    first = second ∧ rest = after := by
  cases first <;> cases second <;> simp_all [BinaryOperator.symbol]

theorem name_parts (function : Function) : ∀ part ∈ function.name.toList, IsWordPart part := by
  cases function <;> exact List.all_eq_true.mp rfl

theorem name_injective {first second : Function} (same : first.name = second.name) :
    first = second :=
  Option.some.inj (by rw [← first.named_name, same, second.named_name])

/-- The text of the tree is not the text of another one, not even in a longer text. -/
def SelfDelimiting (tree : Expression) : Prop :=
  ∀ other rest after, other.Magnitudes → Boundary rest → Boundary after →
    tree.text.toList ++ rest = other.text.toList ++ after → tree = other ∧ rest = after

theorem number_delimiting (own : (number value).Magnitudes) : (number value).SelfDelimiting := by
  intro other rest after magnitudes boundary boundaryAfter same
  have shapes := same_shape own magnitudes same
  cases other <;> simp only [shape, reduceCtorEq] at shapes
  rename_i found
  have magnitude := own value (List.mem_singleton_self _)
  have otherMagnitude := magnitudes found (List.mem_singleton_self _)
  obtain ⟨plain, remaining⟩ := word_append_injective (plain_parts magnitude)
    (plain_parts otherMagnitude) boundary boundaryAfter same
  have values := plain_injective magnitude otherMagnitude (String.toList_inj.mp plain)
  exact ⟨congrArg number values, remaining⟩

theorem constant_delimiting (named : Constant) : (constant named).SelfDelimiting := by
  intro other rest after magnitudes _ _ same
  have own : (constant named).Magnitudes := fun value member => nomatch member
  have shapes := same_shape own magnitudes same
  cases other <;> simp only [shape, reduceCtorEq] at shapes
  rename_i found
  cases named <;> cases found <;> simp_all [text, Constant.name]

/-! Behind the parenthesis of an operation stands a minus or the text of its first operand,
which is followed by a factorial mark or a space. -/

theorem negation_delimiting (delimiting : tree.SelfDelimiting)
    (own : (unary .negate tree).Magnitudes) : (unary .negate tree).SelfDelimiting := by
  intro other rest after magnitudes _ _ same
  have shapes := same_shape own magnitudes same
  cases other <;> simp only [shape, reduceCtorEq] at shapes
  · rename_i operator operand
    have operandMagnitudes : operand.Magnitudes := magnitudes
    cases operator with
    | negate =>
        simp only [negation_text, List.cons.injEq, true_and] at same
        obtain ⟨rfl, others⟩ := delimiting _ _ _ operandMagnitudes
          (boundary_mark (by decide) _) (boundary_mark (by decide) _) same
        exact ⟨rfl, (List.cons.inj others).2⟩
    | factorial =>
        simp only [negation_text, factorial_text, List.cons.injEq, true_and] at same
        exact absurd same (text_ne_minus operandMagnitudes)
  · simp only [negation_text, binary_text, List.cons.injEq, true_and] at same
    exact absurd same (text_ne_minus (magnitudes_binary magnitudes).1)

theorem factorial_delimiting (delimiting : tree.SelfDelimiting)
    (own : (unary .factorial tree).Magnitudes) : (unary .factorial tree).SelfDelimiting := by
  intro other rest after magnitudes _ _ same
  have shapes := same_shape own magnitudes same
  have treeMagnitudes : tree.Magnitudes := own
  cases other <;> simp only [shape, reduceCtorEq] at shapes
  · rename_i operator operand
    have operandMagnitudes : operand.Magnitudes := magnitudes
    cases operator with
    | negate =>
        simp only [negation_text, factorial_text, List.cons.injEq, true_and] at same
        exact absurd same.symm (text_ne_minus treeMagnitudes)
    | factorial =>
        simp only [factorial_text, List.cons.injEq, true_and] at same
        obtain ⟨rfl, others⟩ := delimiting _ _ _ operandMagnitudes
          (boundary_mark (by decide) _) (boundary_mark (by decide) _) same
        exact ⟨rfl, by simpa using others⟩
  · simp only [factorial_text, binary_text, List.cons.injEq, true_and] at same
    obtain ⟨_, others⟩ := delimiting _ _ _ (magnitudes_binary magnitudes).1
      (boundary_mark (by decide) _) (boundary_mark (by decide) _) same
    simp at others

theorem binary_delimiting (operator : BinaryOperator) (leftDelimiting : left.SelfDelimiting)
    (rightDelimiting : right.SelfDelimiting) (own : (binary operator left right).Magnitudes) :
    (binary operator left right).SelfDelimiting := by
  intro other rest after magnitudes _ _ same
  have shapes := same_shape own magnitudes same
  cases other <;> simp only [shape, reduceCtorEq] at shapes
  · rename_i otherOperator operand
    have operandMagnitudes : operand.Magnitudes := magnitudes
    cases otherOperator with
    | negate =>
        simp only [binary_text, negation_text, List.cons.injEq, true_and] at same
        exact absurd same.symm (text_ne_minus (magnitudes_binary own).1)
    | factorial =>
        simp only [binary_text, factorial_text, List.cons.injEq, true_and] at same
        obtain ⟨_, others⟩ := leftDelimiting _ _ _ operandMagnitudes
          (boundary_mark (by decide) _) (boundary_mark (by decide) _) same
        simp at others
  · obtain ⟨firstMagnitudes, secondMagnitudes⟩ := magnitudes_binary magnitudes
    simp only [binary_text, List.cons.injEq, true_and] at same
    obtain ⟨rfl, operations⟩ := leftDelimiting _ _ _ firstMagnitudes
      (boundary_mark (by decide) _) (boundary_mark (by decide) _) same
    obtain ⟨rfl, operands⟩ := symbol_injective (List.cons.inj operations).2
    obtain ⟨rfl, others⟩ := rightDelimiting _ _ _ secondMagnitudes
      (boundary_mark (by decide) _) (boundary_mark (by decide) _) (List.cons.inj operands).2
    exact ⟨rfl, (List.cons.inj others).2⟩

theorem call_delimiting (function : Function) (delimiting : tree.SelfDelimiting)
    (own : (call function tree).Magnitudes) : (call function tree).SelfDelimiting := by
  intro other rest after magnitudes _ _ same
  have shapes := same_shape own magnitudes same
  cases other <;> simp only [shape, reduceCtorEq] at shapes
  rename_i otherFunction argument
  have argumentMagnitudes : argument.Magnitudes := magnitudes
  rw [call_text, call_text] at same
  obtain ⟨names, arguments⟩ := word_append_injective (name_parts function)
    (name_parts otherFunction) (boundary_mark (by decide) _) (boundary_mark (by decide) _) same
  obtain rfl := name_injective (String.toList_inj.mp names)
  obtain ⟨rfl, others⟩ := delimiting _ _ _ argumentMagnitudes
    (boundary_mark (by decide) _) (boundary_mark (by decide) _) (List.cons.inj arguments).2
  exact ⟨rfl, (List.cons.inj others).2⟩

theorem text_delimiting (magnitudes : tree.Magnitudes) : tree.SelfDelimiting := by
  induction tree with
  | number value => exact number_delimiting magnitudes
  | constant named => exact constant_delimiting named
  | unary operator operand ih =>
      cases operator with
      | negate => exact negation_delimiting (ih magnitudes) magnitudes
      | factorial => exact factorial_delimiting (ih magnitudes) magnitudes
  | binary operator left right leftIh rightIh =>
      obtain ⟨leftMagnitudes, rightMagnitudes⟩ := magnitudes_binary magnitudes
      exact binary_delimiting operator (leftIh leftMagnitudes) (rightIh rightMagnitudes) magnitudes
  | call function argument ih => exact call_delimiting function (ih magnitudes) magnitudes

theorem text_injective (leftMagnitudes : left.Magnitudes) (rightMagnitudes : right.Magnitudes)
    (same : left.text = right.text) : left = right :=
  (text_delimiting leftMagnitudes right [] [] rightMagnitudes nofun nofun (by rw [same])).1

end Expression

/-! Trees that are read -/

variable {source : String} {tree left right : Expression} {limit level : Nat} {phrase : Phrase}
  {tokens : List Token}

/-- Every literal of a tree is one of its tokens. -/
theorem derives_literals (derivation : Derives phrase tokens tree level) :
    ∀ value ∈ tree.literals, Token.number value ∈ tokens := by
  induction derivation with
  | term _ ih | factor _ ih | unsigned _ ih | base _ ih | plain _ ih => exact ih
  | join _ _ _ leftIh rightIh | raised _ _ leftIh rightIh =>
      intro value member
      rcases List.mem_append.mp member with inLeft | inRight
      · exact List.mem_append_left _ (leftIh value inLeft)
      · exact List.mem_append_right _ (List.mem_cons_of_mem _ (rightIh value inRight))
  | negation _ ih => exact fun value member => List.mem_cons_of_mem _ (ih value member)
  | factorial _ ih => exact fun value member => List.mem_append_left _ (ih value member)
  | number literal => exact fun value member => by simpa [Expression.literals] using member
  | constant => exact fun value member => absurd member List.not_mem_nil
  | call _ _ ih =>
      intro value member
      have inner := List.mem_append_left [Token.closing] (ih value member)
      exact List.mem_cons_of_mem _ (List.mem_cons_of_mem _ inner)
  | group _ ih =>
      exact fun value member => List.mem_cons_of_mem _ (List.mem_append_left _ (ih value member))

theorem scanned_magnitude (scans : Scans source.toList tokens)
    (member : Token.number value ∈ tokens) : IsMagnitude value := by
  obtain ⟨segments, _, _, rfl⟩ := scans
  obtain ⟨segment, _, reads⟩ := List.mem_filterMap.mp member
  cases segment with
  | blank => cases reads
  | number text =>
      obtain rfl : (Decimal.ofText text).toFloat = value := by simpa [Segment.token?] using reads
      exact nearest_magnitude _ _
  | word => cases reads
  | symbol character =>
      have symbol : Token.ofSymbol? character = some (.number value) :=
        (of_symbol_lookup character).trans reads
      unfold Token.ofSymbol? at symbol
      split at symbol <;> cases symbol

theorem read_magnitudes (read : readExpression limit source = .ok tree) : tree.Magnitudes := by
  obtain ⟨level, _, tokens, scans, derivation⟩ := read_iff_writes.mp read
  exact fun value member => scanned_magnitude scans (derives_literals derivation value member)

/-- The trees that some source stands for within some limit. -/
def Expression.Written (tree : Expression) : Prop :=
  ∃ limit source, readExpression limit source = .ok tree

theorem written_agrees_iff (leftWritten : left.Written) (rightWritten : right.Written) :
    left.agrees right ↔ left = right := by
  obtain ⟨_, _, leftRead⟩ := leftWritten
  obtain ⟨_, _, rightRead⟩ := rightWritten
  exact Expression.agrees_iff_eq (read_magnitudes leftRead) (read_magnitudes rightRead)

theorem written_text_iff (leftWritten : left.Written) (rightWritten : right.Written) :
    left.text = right.text ↔ left = right := by
  obtain ⟨_, _, leftRead⟩ := leftWritten
  obtain ⟨_, _, rightRead⟩ := rightWritten
  exact ⟨Expression.text_injective (read_magnitudes leftRead) (read_magnitudes rightRead),
    congrArg Expression.text⟩

/-- No literal that is read is undefined, negative or a negative zero. So agreement of trees
that are read is reflexive, symmetric and transitive. It is the same as having one text, and
trees that agree have one depth, one size and, in every mode, one outcome. -/
theorem agreement_shown_by_text :
    (∀ tree : Expression, tree.Written → ∀ value ∈ tree.literals,
      ¬isUndefined value ∧ ¬isBelowZero value ∧ ∀ quanta, view value ≠ .finite true quanta) ∧
    (Equivalence fun left right : { tree : Expression // tree.Written } =>
      left.val.agrees right.val) ∧
    ∀ (firstLimit secondLimit : Nat) (firstSource secondSource : String) (left right : Expression),
      readExpression firstLimit firstSource = .ok left →
      readExpression secondLimit secondSource = .ok right →
      (left.agrees right ↔ left.text = right.text) ∧
      (left.agrees right → left.depth = right.depth ∧ left.size = right.size ∧
        ∀ library mode, left.evaluate library mode = right.evaluate library mode) := by
  refine ⟨?_, ?_, ?_⟩
  · rintro tree ⟨limit, source, read⟩ value member
    rcases read_magnitudes read value member with ⟨quanta, finite⟩ | infinite
    · simp [isUndefined, isBelowZero, finite]
    · simp [isUndefined, isBelowZero, infinite]
  · have same : ∀ left right : { tree : Expression // tree.Written },
        left.val.agrees right.val ↔ left = right := fun left right =>
      (written_agrees_iff left.property right.property).trans Subtype.ext_iff.symm
    exact ⟨fun tree => (same tree tree).mpr rfl,
      fun agreed => (same _ _).mpr ((same _ _).mp agreed).symm,
      fun first second => (same _ _).mpr (((same _ _).mp first).trans ((same _ _).mp second))⟩
  · intro firstLimit secondLimit firstSource secondSource left right firstRead secondRead
    have leftWritten : left.Written := ⟨_, _, firstRead⟩
    have rightWritten : right.Written := ⟨_, _, secondRead⟩
    rw [written_agrees_iff leftWritten rightWritten, written_text_iff leftWritten rightWritten]
    refine ⟨Iff.rfl, ?_⟩
    rintro rfl
    exact ⟨rfl, rfl, fun _ _ => rfl⟩

/-- Literals too long for a double are read as infinity, however many digits they have, and
`0.50` is one half; but a half is no quarter. -/
theorem agreement_shown_by_text_infinity :
    let long (places : Nat) : List Char := '1' :: List.replicate places '0'
    let first := String.ofList ('-' :: '(' :: (long 309 ++ [')', ' ', '-', '0', '.', '5', '0']))
    let second := String.ofList ('-' :: (long 400 ++ ['-', '.', '5']))
    let third := String.ofList ('-' :: (long 309 ++ ['-', '.', '2', '5']))
    let tree (literal : Float) : Expression := .binary .subtract
      (.unary .negate (.number (.ofBits 0x7ff0000000000000))) (.number literal)
    let half := tree (.ofBits 0x3fe0000000000000)
    let quarter := tree (.ofBits 0x3fd0000000000000)
    (readExpression 3 first = .ok half ∧ readExpression 200 second = .ok half ∧
        readExpression 2 third = .ok quarter) ∧
      (half.text = "((-inf) - 0.5)" ∧ quarter.text = "((-inf) - 0.25)") ∧
      half.agrees half ∧ ¬half.agrees quarter := by
  intro long first second third tree half quarter
  have firstRead : readExpression 3 first = .ok half := by
    rw [readExpression, lexemes, String.toList_ofList]
    decide +kernel
  have secondRead : readExpression 200 second = .ok half := by
    rw [readExpression, lexemes, String.toList_ofList]
    decide +kernel
  have thirdRead : readExpression 2 third = .ok quarter := by
    rw [readExpression, lexemes, String.toList_ofList]
    decide +kernel
  have halfText : half.text = "((-inf) - 0.5)" := by decide +kernel
  have quarterText : quarter.text = "((-inf) - 0.25)" := by decide +kernel
  have settled := agreement_shown_by_text.2.2
  refine ⟨⟨firstRead, secondRead, thirdRead⟩, ⟨halfText, quarterText⟩, ?_, ?_⟩
  · exact (settled 3 200 first second half half firstRead secondRead).1.mpr rfl
  · rw [(settled 3 2 first third half quarter firstRead thirdRead).1, halfText, quarterText]
    decide

end Calculator
