import Calculator.Text.Position
import Calculator.Token.Piece

/-!
The lexemes of a source text: its pieces without the blanks, each at its place, and
a closing mark at the end. The first piece that stands for no token is reported.
-/

namespace Calculator

/-- A piece of text that is no part of the language. -/
structure UnknownToken where
  position : Nat
  text : String
deriving DecidableEq, Repr

def UnknownToken.message (unknown : UnknownToken) : String :=
  s!"Error at position {unknown.position}: Unknown token '{unknown.text}'."

/-- The lexemes of the pieces that begin `byte` bytes into the source. -/
def lexemesFrom (counter : PositionCounter) (byte : Nat) :
    List Piece → Except UnknownToken (List Lexeme)
  | [] => .ok [{ token := .finish, text := "", position := (counter.seek byte).1 }]
  | .blank text :: rest => lexemesFrom counter (byte + utf8Length text) rest
  | piece :: rest => do
      let (position, counter) := counter.seek byte
      let text := String.ofList piece.text
      match piece.token? with
      | none => .error { position, text }
      | some token =>
          let following ← lexemesFrom counter (byte + utf8Length piece.text) rest
          return { token, text, position } :: following

def lexemes (source : String) : Except UnknownToken (List Lexeme) :=
  lexemesFrom (.start source.toList) 0 (Piece.cut source.toList)

end Calculator
