import Calculator.Parse

/-!
# The grammar as a relation

Which tokens form which tree, and how deeply the tree is nested in its phrase, is
stated here without a reader: no cursor, no budget, no order of decisions. Sums and
products are left recursive, so they group to the left; a power is right recursive.
-/

namespace Calculator

/-- The kinds of phrases, from the loosest binding to the tightest. -/
inductive Phrase
  | sum
  | product
  | signed
  | power
  | factorials
  | primary
deriving DecidableEq, Repr

/-- A `whole` may be continued by the token and one more `operand`. -/
inductive Joins : (whole operand : Phrase) → Token → BinaryOperator → Prop
  | plus : Joins .sum .product .plus .add
  | minus : Joins .sum .product .minus .subtract
  | times : Joins .product .signed .times .multiply
  | divide : Joins .product .signed .divide .divide

/-- The tokens form the tree as a phrase of the given kind. Only a signed operand adds
a level of nesting; everything else takes the largest level of its parts. -/
inductive Derives : Phrase → List Token → Expression → Nat → Prop
  | term {tokens : List Token} {tree : Expression} {level : Nat} :
      Derives .product tokens tree level → Derives .sum tokens tree level
  | factor {tokens : List Token} {tree : Expression} {level : Nat} :
      Derives .signed tokens tree level → Derives .product tokens tree level
  | join {whole operand : Phrase} {token : Token} {operator : BinaryOperator}
      {leftTokens rightTokens : List Token} {left right : Expression}
      {leftLevel rightLevel : Nat} :
      Joins whole operand token operator →
      Derives whole leftTokens left leftLevel → Derives operand rightTokens right rightLevel →
      Derives whole (leftTokens ++ token :: rightTokens) (.binary operator left right)
        (max leftLevel rightLevel)
  | negation {tokens : List Token} {tree : Expression} {level : Nat} :
      Derives .signed tokens tree level →
      Derives .signed (.minus :: tokens) (.unary .negate tree) (level + 1)
  | unsigned {tokens : List Token} {tree : Expression} {level : Nat} :
      Derives .power tokens tree level → Derives .signed tokens tree (level + 1)
  | base {tokens : List Token} {tree : Expression} {level : Nat} :
      Derives .factorials tokens tree level → Derives .power tokens tree level
  | raised {baseTokens exponentTokens : List Token} {base exponent : Expression}
      {baseLevel exponentLevel : Nat} :
      Derives .factorials baseTokens base baseLevel →
      Derives .signed exponentTokens exponent exponentLevel →
      Derives .power (baseTokens ++ .power :: exponentTokens) (.binary .power base exponent)
        (max baseLevel exponentLevel)
  | plain {tokens : List Token} {tree : Expression} {level : Nat} :
      Derives .primary tokens tree level → Derives .factorials tokens tree level
  | factorial {tokens : List Token} {tree : Expression} {level : Nat} :
      Derives .factorials tokens tree level →
      Derives .factorials (tokens ++ [.factorial]) (.unary .factorial tree) level
  | number (value : Float) : Derives .primary [.number value] (.number value) 0
  | constant {name : String} {named : Constant} :
      Constant.named? name = some named → Derives .primary [.name name] (.constant named) 0
  | call {name : String} {function : Function} {tokens : List Token} {argument : Expression}
      {level : Nat} :
      Function.named? name = some function → Derives .sum tokens argument level →
      Derives .primary (.name name :: .opening :: (tokens ++ [.closing]))
        (.call function argument) level
  | group {tokens : List Token} {tree : Expression} {level : Nat} :
      Derives .sum tokens tree level →
      Derives .primary (.opening :: (tokens ++ [.closing])) tree level

/-- The tokens in front of the first closing mark, all of them if there is none. -/
def contents (lexemes : List Lexeme) : List Token :=
  (lexemes.map Lexeme.token).takeWhile (· ≠ .finish)

namespace Derives

variable {phrase : Phrase} {tokens : List Token} {tree : Expression} {level : Nat}

/-- A closing mark is no part of any phrase. -/
theorem finish_not_mem (derivation : Derives phrase tokens tree level) :
    Token.finish ∉ tokens := by
  induction derivation with
  | term _ ih | factor _ ih | unsigned _ ih | base _ ih | plain _ ih => exact ih
  | join joins _ _ leftIh rightIh => cases joins <;> simp [leftIh, rightIh]
  | raised _ _ baseIh exponentIh => simp [baseIh, exponentIh]
  | negation _ ih | factorial _ ih | call _ _ ih | group _ ih => simp [ih]
  | number | constant => simp

theorem tokens_ne_nil (derivation : Derives phrase tokens tree level) : tokens ≠ [] := by
  induction derivation with
  | term _ ih | factor _ ih | unsigned _ ih | base _ ih | plain _ ih => exact ih
  | join | raised | negation | factorial | number | constant | call | group => simp

/-- A phrase that binds tighter than a sign does not begin with one. -/
theorem head_ne_minus (derivation : Derives phrase tokens tree level)
    (unsigned : phrase = .power ∨ phrase = .factorials ∨ phrase = .primary) :
    tokens.head? ≠ some .minus := by
  induction derivation with
  | term | factor | negation | unsigned => simp at unsigned
  | join joins => cases joins <;> simp at unsigned
  | base _ ih => exact ih (by simp)
  | plain _ ih => exact ih (by simp)
  | raised baseDerivation _ baseIh =>
      obtain ⟨head, tail, same⟩ := List.exists_cons_of_ne_nil baseDerivation.tokens_ne_nil
      simpa [same] using baseIh (by simp)
  | factorial operand ih =>
      obtain ⟨head, tail, same⟩ := List.exists_cons_of_ne_nil operand.tokens_ne_nil
      simpa [same] using ih (by simp)
  | number | constant | call | group => simp

theorem primary_signed (derivation : Derives .primary tokens tree level) :
    Derives .signed tokens tree (level + 1) :=
  .unsigned (.base (.plain derivation))

end Derives

end Calculator
