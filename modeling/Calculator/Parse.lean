import Calculator.Grammar

/-!
Reading expressions from a list of lexemes. `parse` demands that one expression uses
up the list; a `Session` reads one expression after another from the same list and
keeps its place, and the levels it did not leave, when an expression is at fault.
-/

namespace Calculator

inductive ParseError
  | unexpectedToken (position : Nat) (token : String)
  | unclosedParenthesis (position : Nat)
  | unexpectedEnd (position : Nat)
  | tooComplex (limit : Nat)
deriving DecidableEq, Repr

namespace ParseError

/-- A nesting that is too deep has no place. -/
def position? : ParseError → Option Nat
  | .unexpectedToken position _ => some position
  | .unclosedParenthesis position => some position
  | .unexpectedEnd position => some position
  | .tooComplex _ => none

def message : ParseError → String
  | .unexpectedToken position token =>
      s!"Error at position {position}: Unexpected token '{token}'."
  | .unclosedParenthesis position =>
      s!"Error at position {position}: Parenthesis opened here is never closed."
  | .unexpectedEnd position => s!"Error at position {position}: Unexpected end of input."
  | .tooComplex limit =>
      s!"Expression is too complex: nesting exceeds the limit of {limit}."

end ParseError

/-- The position behind the last lexeme. -/
def endPosition (lexemes : List Lexeme) : Nat :=
  match lexemes.getLast? with
  | none => 0
  | some last => last.position + last.text.length

/-- Completes a fault by the depth limit and the place where the lexemes run out. -/
def Fault.report (limit finish : Nat) : Fault → ParseError
  | .unexpected lexeme => .unexpectedToken lexeme.position lexeme.described
  | .unclosed opening => .unclosedParenthesis opening
  | .ended position => .unexpectedEnd (position.getD finish)
  | .tooDeep => .tooComplex limit

structure Session where
  lexemes : List Lexeme
  limit : Nat
  rest : List Lexeme
  depth : Nat
deriving DecidableEq, Repr

namespace Session

def start (lexemes : List Lexeme) (limit : Nat) : Session :=
  { lexemes, limit, rest := lexemes, depth := 0 }

/-- Reads the next expression with the depth that is left. -/
def next (session : Session) : Except ParseError Expression × Session :=
  match Grammar.expression (session.limit - session.depth) session.rest with
  | .done tree rest _ => (.ok tree, { session with rest })
  | .failed fault rest entered =>
      (.error (fault.report session.limit (endPosition session.lexemes)),
        { session with rest, depth := session.depth + entered })

/-- Fails at a lexeme that is left over, unless it is a closing mark. -/
def requireEnd (session : Session) : Except ParseError Unit :=
  match session.rest with
  | [] => .ok ()
  | lexeme :: _ =>
      match lexeme.token with
      | .finish => .ok ()
      | _ => .error (.unexpectedToken lexeme.position lexeme.described)

end Session

def defaultDepthLimit : Nat := 200

/-- The expression that the lexemes up to the first closing mark form. -/
def parse (lexemes : List Lexeme) (limit : Nat) : Except ParseError Expression := do
  let (outcome, session) := (Session.start lexemes limit).next
  let tree ← outcome
  session.requireEnd
  return tree

end Calculator
