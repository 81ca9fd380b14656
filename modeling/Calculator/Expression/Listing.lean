import Calculator.Expression

/-!
Expressions as instructions for a stack machine: operands before their operation,
the left one first. A listing determines its tree, so trees can be exchanged as lists.
-/

namespace Calculator

inductive Instruction
  | number (value : Float)
  | constant (named : Constant)
  | unary (operator : UnaryOperator)
  | binary (operator : BinaryOperator)
  | call (function : Function)
deriving DecidableEq, Repr

namespace Expression

def listing : Expression → List Instruction
  | .number value => [.number value]
  | .constant named => [.constant named]
  | .unary operator operand => operand.listing ++ [.unary operator]
  | .binary operator left right => left.listing ++ right.listing ++ [.binary operator]
  | .call function argument => argument.listing ++ [.call function]

/-- Applies an instruction to finished trees, the latest first. -/
def build? : Instruction → List Expression → Option (List Expression)
  | .number value, stack => some (.number value :: stack)
  | .constant named, stack => some (.constant named :: stack)
  | .unary operator, operand :: stack => some (.unary operator operand :: stack)
  | .binary operator, right :: left :: stack => some (.binary operator left right :: stack)
  | .call function, argument :: stack => some (.call function argument :: stack)
  | _, _ => none

def buildAll? : List Instruction → List Expression → Option (List Expression)
  | [], stack => some stack
  | instruction :: rest, stack => do buildAll? rest (← build? instruction stack)

/-- The tree with a given listing, if there is one. -/
def ofListing? (instructions : List Instruction) : Option Expression :=
  match buildAll? instructions [] with
  | some [tree] => some tree
  | _ => none

theorem build_all_listing (tree : Expression) (rest : List Instruction)
    (stack : List Expression) :
    buildAll? (tree.listing ++ rest) stack = buildAll? rest (tree :: stack) := by
  induction tree generalizing rest stack with
  | number | constant => rfl
  | unary operator operand ih | call operator operand ih =>
      rw [listing, List.append_assoc, ih]
      rfl
  | binary operator left right leftIh rightIh =>
      rw [listing, List.append_assoc, List.append_assoc, leftIh, rightIh]
      rfl

theorem of_listing_listing (tree : Expression) : ofListing? tree.listing = some tree := by
  have built := build_all_listing tree [] []
  rw [List.append_nil] at built
  simp [ofListing?, built, buildAll?]

end Expression

end Calculator
