/-!
Lines of a text and the white space around them.
-/

namespace Calculator

/-- The white space of Unicode: the control characters from tab to carriage return,
next line, and every kind of space and separator of lines or paragraphs. -/
def isWhiteSpace (character : Char) : Bool :=
  let code := character.toNat
  (9 ≤ code && code ≤ 13) || code = 0x20 || code = 0x85 || code = 0xA0 || code = 0x1680 ||
    (0x2000 ≤ code && code ≤ 0x200A) || code = 0x2028 || code = 0x2029 || code = 0x202F ||
    code = 0x205F || code = 0x3000

/-- A line ends at a line feed, to which a carriage return just before it belongs. The
text behind the last line feed is a line only if there is any. -/
def splitLines : List Char → List (List Char)
  | [] => []
  | '\n' :: rest => [] :: splitLines rest
  | '\r' :: '\n' :: rest => [] :: splitLines rest
  | character :: rest =>
      match splitLines rest with
      | [] => [[character]]
      | line :: lines => (character :: line) :: lines

/-- Removes the white space at both ends. -/
def trim (text : List Char) : List Char :=
  ((text.dropWhile isWhiteSpace).reverse.dropWhile isWhiteSpace).reverse

end Calculator
