import Calculator.Proofs.Nesting
import Mathlib.Data.List.Forall2

/-!
# A tree yields its tokens

Read from left to right, the nodes of a parsed tree are the tokens it was parsed from, in their
order and without the parentheses. So no token is lost, added or moved, and a tree has one node
for each token that is not a parenthesis.
-/

namespace Calculator

/-- What a node writes into the yield of its tree. -/
inductive Mark
  | number (value : Float)
  | constant (named : Constant)
  | function (named : Function)
  | negation
  | factorial
  | operation (operator : BinaryOperator)
deriving DecidableEq, Repr

/-- The nodes of a tree from left to right: an operation between its operands, a negation and
a function in front of theirs, a factorial behind it. -/
def Expression.yield : Expression → List Mark
  | .number value => [.number value]
  | .constant named => [.constant named]
  | .unary .negate operand => .negation :: operand.yield
  | .unary .factorial operand => operand.yield ++ [.factorial]
  | .binary operator left right => left.yield ++ .operation operator :: right.yield
  | .call function argument => .function function :: argument.yield

/-- A token that may stand for a node. A minus is a subtraction or a negation, and no
parenthesis stands for a node. -/
inductive Token.StandsFor : Token → Mark → Prop
  | number (value : Float) : StandsFor (.number value) (.number value)
  | constant {name : String} {named : Constant} :
      Constant.named? name = some named → StandsFor (.name name) (.constant named)
  | function {name : String} {named : Function} :
      Function.named? name = some named → StandsFor (.name name) (.function named)
  | negation : StandsFor .minus .negation
  | factorial : StandsFor .factorial .factorial
  | add : StandsFor .plus (.operation .add)
  | subtract : StandsFor .minus (.operation .subtract)
  | multiply : StandsFor .times (.operation .multiply)
  | divide : StandsFor .divide (.operation .divide)
  | power : StandsFor .power (.operation .power)

def Token.isParenthesis : Token → Bool
  | .opening | .closing => true
  | _ => false

/-- The tokens that are no parentheses. -/
def unparenthesized (tokens : List Token) : List Token :=
  tokens.filter fun token => !token.isParenthesis

/-- No parenthesis is closed before it is opened, and all are closed in the end. -/
structure Balanced (tokens : List Token) : Prop where
  opened : ∀ front, front <+: tokens → front.count .closing ≤ front.count .opening
  closed : tokens.count .closing = tokens.count .opening

variable {tokens before after : List Token} {token : Token} {phrase : Phrase}
  {tree : Expression} {level limit : Nat} {lexemes : List Lexeme}

theorem yield_length (tree : Expression) : tree.yield.length = tree.size := by
  induction tree with
  | number | constant => rfl
  | unary operator operand ih =>
      cases operator <;> simp [Expression.yield, Expression.size, ih, Nat.add_comm]
  | binary operator left right leftIh rightIh =>
      simp only [Expression.yield, Expression.size, List.length_append, List.length_cons,
        leftIh, rightIh]
      omega
  | call function argument ih => simp [Expression.yield, Expression.size, ih, Nat.add_comm]

/-! Balanced tokens put together -/

theorem balanced_nil : Balanced [] where
  opened front short := by simp [List.prefix_nil.mp short]
  closed := rfl

theorem balanced_cons (plain : ¬token.isParenthesis) (inner : Balanced tokens) :
    Balanced (token :: tokens) := by
  have notOpening : token ≠ .opening := fun same => plain (same ▸ rfl)
  have notClosing : token ≠ .closing := fun same => plain (same ▸ rfl)
  constructor
  · intro front short
    rcases List.prefix_cons_iff.mp short with rfl | ⟨front, rfl, within⟩
    · exact Nat.le_refl 0
    · rw [List.count_cons_of_ne notOpening, List.count_cons_of_ne notClosing]
      exact inner.opened front within
  · rw [List.count_cons_of_ne notOpening, List.count_cons_of_ne notClosing, inner.closed]

theorem balanced_append (first : Balanced before) (second : Balanced after) :
    Balanced (before ++ after) := by
  have closed := first.closed
  constructor
  · rintro front ⟨rest, split⟩
    rcases List.append_eq_append_iff.mp split with ⟨middle, rfl, _⟩ | ⟨middle, rfl, rfl⟩
    · exact first.opened front (List.prefix_append front middle)
    · have opened := second.opened middle (List.prefix_append middle rest)
      simp only [List.count_append]
      omega
  · rw [List.count_append, List.count_append, closed, second.closed]

theorem balanced_enclosed (inner : Balanced tokens) :
    Balanced (.opening :: (tokens ++ [.closing])) := by
  have closed := inner.closed
  constructor
  · intro front short
    rcases List.prefix_cons_iff.mp short with rfl | ⟨front, rfl, within⟩
    · exact Nat.le_refl 0
    rcases List.prefix_concat_iff.mp within with rfl | within
    · simp [closed]
    · have opened := inner.opened front within
      simp only [List.count_cons_self, List.count_cons_of_ne (by decide : Token.opening ≠ .closing)]
      omega
  · simp [closed]

/-! Every phrase -/

theorem joins_stands {whole operand : Phrase} {operator : BinaryOperator}
    (joins : Joins whole operand token operator) :
    token.StandsFor (.operation operator) := by
  cases joins <;> constructor

theorem stands_plain {mark : Mark} (stands : token.StandsFor mark) : ¬token.isParenthesis := by
  cases stands <;> exact Bool.false_ne_true

theorem unparenthesized_append (before after : List Token) :
    unparenthesized (before ++ after) = unparenthesized before ++ unparenthesized after :=
  List.filter_append ..

theorem unparenthesized_cons (plain : ¬token.isParenthesis) (after : List Token) :
    unparenthesized (token :: after) = token :: unparenthesized after :=
  List.filter_cons_of_pos (by simpa using plain)

theorem unparenthesized_enclosed (tokens : List Token) :
    unparenthesized (.opening :: (tokens ++ [.closing])) = unparenthesized tokens := by
  rw [unparenthesized, List.filter_cons_of_neg (by decide), List.filter_append]
  exact List.append_nil _

theorem stands_cons {mark : Mark} {marks : List Mark} (stands : token.StandsFor mark)
    (others : List.Forall₂ Token.StandsFor (unparenthesized tokens) marks) :
    List.Forall₂ Token.StandsFor (unparenthesized (token :: tokens)) (mark :: marks) := by
  rw [unparenthesized_cons (stands_plain stands)]
  exact .cons stands others

theorem stands_append {left right : List Mark}
    (first : List.Forall₂ Token.StandsFor (unparenthesized before) left)
    (second : List.Forall₂ Token.StandsFor (unparenthesized after) right) :
    List.Forall₂ Token.StandsFor (unparenthesized (before ++ after)) (left ++ right) := by
  rw [unparenthesized_append]
  exact List.rel_append first second

theorem derives_yield (derivation : Derives phrase tokens tree level) :
    List.Forall₂ Token.StandsFor (unparenthesized tokens) tree.yield := by
  induction derivation with
  | term _ ih | factor _ ih | unsigned _ ih | base _ ih | plain _ ih => exact ih
  | join joins _ _ leftIh rightIh =>
      exact stands_append leftIh (stands_cons (joins_stands joins) rightIh)
  | raised _ _ baseIh exponentIh => exact stands_append baseIh (stands_cons .power exponentIh)
  | negation _ ih => exact stands_cons .negation ih
  | factorial _ ih => exact stands_append ih (stands_cons .factorial .nil)
  | number value => exact stands_cons (.number value) .nil
  | constant named => exact stands_cons (.constant named) .nil
  | call named _ ih =>
      refine stands_cons (.function named) ?_
      rwa [unparenthesized_enclosed]
  | group _ ih => rwa [unparenthesized_enclosed]

theorem derives_balanced (derivation : Derives phrase tokens tree level) : Balanced tokens := by
  induction derivation with
  | term _ ih | factor _ ih | unsigned _ ih | base _ ih | plain _ ih => exact ih
  | join joins _ _ leftIh rightIh =>
      exact balanced_append leftIh (balanced_cons (stands_plain (joins_stands joins)) rightIh)
  | raised _ _ baseIh exponentIh =>
      exact balanced_append baseIh (balanced_cons Bool.false_ne_true exponentIh)
  | negation _ ih => exact balanced_cons Bool.false_ne_true ih
  | factorial _ ih => exact balanced_append ih (balanced_cons Bool.false_ne_true balanced_nil)
  | number | constant => exact balanced_cons Bool.false_ne_true balanced_nil
  | call _ _ ih => exact balanced_cons Bool.false_ne_true (balanced_enclosed ih)
  | group _ ih => exact balanced_enclosed ih

/-- The nodes of a parsed tree, from left to right, are its tokens without the parentheses,
one for one. So the tree has as many nodes as there are such tokens and is never deeper, and
the parentheses left out are balanced. -/
theorem parsed_tree_yields_tokens (parsed : parse lexemes limit = .ok tree) :
    List.Forall₂ Token.StandsFor (unparenthesized (contents lexemes)) tree.yield ∧
      tree.size = (unparenthesized (contents lexemes)).length ∧
      tree.depth ≤ (unparenthesized (contents lexemes)).length ∧
      Balanced (contents lexemes) := by
  obtain ⟨level, _, derivation⟩ := parse_iff_derives.mp parsed
  have yields := derives_yield derivation
  have size : tree.size = (unparenthesized (contents lexemes)).length := by
    rw [← yield_length, yields.length_eq]
  exact ⟨yields, size, size ▸ tree.depth_le_size, derives_balanced derivation⟩

/-- In `-sin((e))!-e` the first minus is a negation and the second a subtraction. -/
theorem parsed_tree_yields_tokens_signs :
    let lexemes : List Lexeme := [⟨.minus, "-", 0⟩, ⟨.name "sin", "sin", 1⟩, ⟨.opening, "(", 4⟩,
      ⟨.opening, "(", 5⟩, ⟨.name "e", "e", 6⟩, ⟨.closing, ")", 7⟩, ⟨.closing, ")", 8⟩,
      ⟨.factorial, "!", 9⟩, ⟨.minus, "-", 10⟩, ⟨.name "e", "e", 11⟩, ⟨.finish, "", 12⟩]
    let tree : Expression := .binary .subtract
      (.unary .negate (.unary .factorial (.call .sin (.constant .e)))) (.constant .e)
    parse lexemes 4 = .ok tree ∧
      tree.yield = [.negation, .function .sin, .constant .e, .factorial, .operation .subtract,
        .constant .e] ∧
      List.Forall₂ Token.StandsFor (unparenthesized (contents lexemes)) tree.yield ∧
      tree.size = 6 := by
  intro lexemes tree
  have parsed : parse lexemes 4 = .ok tree := by decide +kernel
  obtain ⟨yields, size, _⟩ := parsed_tree_yields_tokens parsed
  exact ⟨parsed, rfl, yields, size⟩

end Calculator
