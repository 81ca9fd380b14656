import Calculator.Token

/-!
Cutting a source text into pieces. Each piece takes as many characters as it can:
runs of blanks and letters are never split, and a number ends only where no digit
and no first point follows. Nothing is dropped, so the pieces concatenate to the source.
-/

namespace Calculator

inductive Piece
  | blank (text : List Char)
  | number (text : List Char)
  | word (text : List Char)
  | single (character : Char)
deriving DecidableEq, Repr

namespace Piece

def text : Piece → List Char
  | .blank text => text
  | .number text => text
  | .word text => text
  | .single character => [character]

/-- The blanks that may separate tokens: space, tab, the line ends and form feed. -/
def isBlank (character : Char) : Bool :=
  character = ' ' || character = '\t' || character = '\r' || character = '\n' ||
    character = '\x0c'

/-- The piece that begins with `character`, and what follows it. A point begins a number
only in front of a digit. -/
def leading (character : Char) (rest : List Char) : Piece × List Char :=
  if isBlank character then
    (.blank (character :: rest.takeWhile isBlank), rest.dropWhile isBlank)
  else if character.isDigit then
    let whole := character :: rest.takeWhile Char.isDigit
    match rest.dropWhile Char.isDigit with
    | '.' :: after =>
        (.number (whole ++ '.' :: after.takeWhile Char.isDigit), after.dropWhile Char.isDigit)
    | after => (.number whole, after)
  else if character = '.' then
    match rest.takeWhile Char.isDigit with
    | [] => (.single character, rest)
    | fraction => (.number (character :: fraction), rest.dropWhile Char.isDigit)
  else if character.isAlpha then
    (.word (character :: rest.takeWhile Char.isAlpha), rest.dropWhile Char.isAlpha)
  else (.single character, rest)

theorem leading_text_append (character : Char) (rest : List Char) :
    (leading character rest).1.text ++ (leading character rest).2 = character :: rest := by
  unfold leading
  split
  · simp [text, List.takeWhile_append_dropWhile]
  split
  · have whole := List.takeWhile_append_dropWhile (p := Char.isDigit) (l := rest)
    split
    · rename_i after found
      rw [found] at whole
      simp [text, List.takeWhile_append_dropWhile, whole]
    · simp [text, whole]
  split
  · split
    · simp [text]
    · simp [text, List.takeWhile_append_dropWhile]
  split
  · simp [text, List.takeWhile_append_dropWhile]
  · simp [text]

theorem leading_text_pos (character : Char) (rest : List Char) :
    0 < (leading character rest).1.text.length := by
  unfold leading
  split
  · simp [text]
  split
  · split <;> simp [text]
  split
  · split <;> simp [text]
  split <;> simp [text]

theorem leading_rest_shorter (character : Char) (rest : List Char) :
    (leading character rest).2.length < (character :: rest).length := by
  have whole := congrArg List.length (leading_text_append character rest)
  have positive := leading_text_pos character rest
  simp only [List.length_append] at whole
  omega

/-- All pieces of a source, in order. -/
def cut : List Char → List Piece
  | [] => []
  | character :: rest =>
      let found := leading character rest
      found.1 :: cut found.2
termination_by source => source.length
decreasing_by exact leading_rest_shorter character rest

theorem cut_texts_flatten (source : List Char) : ((cut source).map text).flatten = source := by
  fun_induction cut source with
  | case1 => rfl
  | case2 character rest found ih =>
      simp only [List.map_cons, List.flatten_cons, ih]
      exact leading_text_append character rest

/-- The token a piece stands for. A word must be a known name, and any other
character must be one of the symbols. -/
def token? : Piece → Option Token
  | .blank _ => none
  | .number text => some (.number (Decimal.ofText text).toFloat)
  | .word text =>
      let name := String.ofList text
      if isKnownName name then some (.name name) else none
  | .single character => Token.ofSymbol? character

end Piece

end Calculator
