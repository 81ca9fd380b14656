import Calculator.Expression
import Calculator.Token

/-!
The grammar, one reader for each level of binding. Sums and products group to the
left, a power to the right; a leading minus binds looser than a power behind it and
may also start an exponent. Signs, powers and parentheses nest, and every nested
level is charged to a budget: the depth that remains is all a reader knows about it.
-/

namespace Calculator

/-- Why reading stopped. -/
inductive Fault
  | unexpected (lexeme : Lexeme)
  | unclosed (opening : Nat)
  | ended (position : Option Nat)
  | tooDeep
deriving DecidableEq, Repr

/-- A reader takes a tree and at least one lexeme from its input, or stops. When it
stops, `rest` begins where it stood, and `entered` levels had been entered. -/
inductive Reply (input : List Lexeme)
  | done (tree : Expression) (rest : List Lexeme) (shorter : rest.length < input.length)
  | failed (fault : Fault) (rest : List Lexeme) (entered : Nat)

abbrev Reader := (input : List Lexeme) → Reply input

/-- A step that goes on from a tree and what is left after it. -/
abbrev Continuation (input : List Lexeme) :=
  Expression → (rest : List Lexeme) → rest.length < input.length → Reply input

namespace Reply

variable {input inner : List Lexeme}

def andThen (reply : Reply inner)
    (next : Expression → (rest : List Lexeme) → rest.length < inner.length → Reply input) :
    Reply input :=
  match reply with
  | .done tree rest shorter => next tree rest shorter
  | .failed fault rest entered => .failed fault rest entered

/-- Wraps what was read after a first part of the input. -/
def within (reply : Reply inner) (wrap : Expression → Expression)
    (part : inner.length ≤ input.length) : Reply input :=
  reply.andThen fun tree rest shorter =>
    .done (wrap tree) rest (Nat.lt_of_lt_of_le shorter part)

/-- Counts one more level as entered if reading stopped inside it. -/
def enter : Reply input → Reply input
  | .done tree rest shorter => .done tree rest shorter
  | .failed fault rest entered => .failed fault rest (entered + 1)

end Reply

/-- The fault at a place where no operand begins. A list that runs out ends the input
as a closing mark does, but names no place of its own. -/
def misplaced : List Lexeme → Fault
  | [] => .ended none
  | lexeme :: _ =>
      match lexeme.token with
      | .finish => .ended (some lexeme.position)
      | _ => .unexpected lexeme

namespace Token

/-- The operation a token stands for between two operands. -/
def operator? : Token → Option BinaryOperator
  | .plus => some .add
  | .minus => some .subtract
  | .times => some .multiply
  | .divide => some .divide
  | .power => some .power
  | _ => none

/-- The operations that join the operands of a sum. -/
def additive? : Token → Option BinaryOperator
  | .plus => some .add
  | .minus => some .subtract
  | _ => none

/-- The operations that join the operands of a product. -/
def multiplicative? : Token → Option BinaryOperator
  | .times => some .multiply
  | .divide => some .divide
  | _ => none

end Token

namespace Grammar

variable {input : List Lexeme}

/-- Takes the further operators of one level with their right operands, grouping to
the left. -/
def extend (operator? : Token → Option BinaryOperator) (read : Reader) : Continuation input
  | left, [], shorter => .done left [] shorter
  | left, lexeme :: after, shorter =>
      match operator? lexeme.token with
      | none => .done left (lexeme :: after) shorter
      | some operator =>
          (read after).andThen fun right next progress =>
            extend operator? read (.binary operator left right) next
              (Nat.lt_trans progress (Nat.lt_trans (Nat.lt_succ_self _) shorter))
termination_by _ rest _ => rest.length
decreasing_by exact Nat.lt_trans progress (Nat.lt_succ_self _)

/-- Operands joined by the operators of one level. -/
def chain (operator? : Token → Option BinaryOperator) (read : Reader) : Reader :=
  fun input => (read input).andThen (extend operator? read)

def sum (operand : Reader) : Reader :=
  chain Token.additive? (chain Token.multiplicative? operand)

/-- Demands the parenthesis that closes the one at `opening`. -/
def close (opening : Nat) : Continuation input
  | _, [], _ => .failed (.unclosed opening) [] 0
  | tree, lexeme :: after, shorter =>
      match lexeme.token with
      | .closing => .done tree after (Nat.lt_trans (Nat.lt_succ_self _) shorter)
      | .finish => .failed (.unclosed opening) (lexeme :: after) 0
      | _ => .failed (.unexpected lexeme) (lexeme :: after) 0

/-- An expression in parentheses. -/
def group (inner : Reader) : Reader
  | [] => .failed (misplaced []) [] 0
  | lexeme :: after =>
      match lexeme.token with
      | .opening =>
          ((inner after).andThen (close lexeme.position)).within id (Nat.le_succ _)
      | _ => .failed (misplaced (lexeme :: after)) (lexeme :: after) 0

/-- A literal, a constant, a function with its argument, or a group. -/
def primary (inner : Reader) : Reader
  | [] => group inner []
  | lexeme :: after =>
      match lexeme.token with
      | .number value => .done (.number value) after (Nat.lt_succ_self _)
      | .name name =>
          match Function.named? name, Constant.named? name with
          | some function, _ => (group inner after).within (.call function) (Nat.le_succ _)
          | none, some constant => .done (.constant constant) after (Nat.lt_succ_self _)
          | none, none => .failed (misplaced (lexeme :: after)) (lexeme :: after) 0
      | _ => group inner (lexeme :: after)

/-- Wraps a tree in one factorial for each mark that follows. -/
def factorials : Continuation input
  | tree, [], shorter => .done tree [] shorter
  | tree, lexeme :: after, shorter =>
      match lexeme.token with
      | .factorial =>
          factorials (.unary .factorial tree) after (Nat.lt_trans (Nat.lt_succ_self _) shorter)
      | _ => .done tree (lexeme :: after) shorter

/-- Raises a tree to an exponent if a power sign follows. -/
def raise (exponent : Reader) : Continuation input
  | tree, [], shorter => .done tree [] shorter
  | tree, lexeme :: after, shorter =>
      match lexeme.token with
      | .power =>
          (exponent after).within (.binary .power tree)
            (Nat.le_of_lt (Nat.lt_trans (Nat.lt_succ_self _) shorter))
      | _ => .done tree (lexeme :: after) shorter

/-- A primary with its factorials and its exponent. -/
def power (inner exponent : Reader) : Reader :=
  fun input => ((primary inner input).andThen factorials).andThen (raise exponent)

/-- A power, or the negation of a signed operand, within a remaining depth. The level
is charged before the input is looked at. -/
def signed : Nat → Reader
  | 0 => fun input => .failed .tooDeep input 1
  | depth + 1 => fun input =>
      match input with
      | [] => (power (sum (signed depth)) (signed depth) []).enter
      | lexeme :: after =>
          match lexeme.token with
          | .minus => ((signed depth after).within (.unary .negate) (Nat.le_succ _)).enter
          | _ => (power (sum (signed depth)) (signed depth) (lexeme :: after)).enter

/-- A whole expression within a remaining depth. -/
def expression (depth : Nat) : Reader := sum (signed depth)

end Grammar

end Calculator
