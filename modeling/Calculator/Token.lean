import Calculator.Name
import Calculator.Numeral

/-!
The tokens of an expression. A lexeme keeps, beside its token, the text it was read
from and the place of its first character, counted in characters.
-/

namespace Calculator

inductive Token
  | number (value : Float)
  | name (text : String)
  | plus
  | minus
  | times
  | divide
  | power
  | factorial
  | opening
  | closing
  | finish
deriving DecidableEq, Repr

namespace Token

def text : Token → String
  | .number value => Numeral.plain value
  | .name text => text
  | .plus => "+"
  | .minus => "-"
  | .times => "*"
  | .divide => "/"
  | .power => "^"
  | .factorial => "!"
  | .opening => "("
  | .closing => ")"
  | .finish => "end of input"

/-- The token written as one symbol. Multiplication, division, the square root and
the circle constant have signs of their own beside their keyboard spellings. -/
def ofSymbol? : Char → Option Token
  | '+' => some .plus
  | '-' => some .minus
  | '*' => some .times
  | '×' => some .times
  | '/' => some .divide
  | '÷' => some .divide
  | '^' => some .power
  | '!' => some .factorial
  | '(' => some .opening
  | ')' => some .closing
  | 'π' => some (.name "π")
  | '√' => some (.name "√")
  | _ => none

end Token

structure Lexeme where
  token : Token
  text : String
  position : Nat
deriving DecidableEq, Repr

/-- How a message refers to a lexeme: as it was written, if it was written at all. -/
def Lexeme.described (lexeme : Lexeme) : String :=
  if lexeme.text.isEmpty then lexeme.token.text else lexeme.text

end Calculator
