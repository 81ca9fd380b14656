/-!
Offsets into a text. Storage is measured in bytes of UTF-8 while a reader counts
characters; `PositionCounter` turns the first into the second. It remembers where
the last question led, so questions asked in increasing order walk the text once.
-/

namespace Calculator

def utf8Length : List Char → Nat
  | [] => 0
  | character :: rest => character.utf8Size + utf8Length rest

/-- Passes over whole characters until `distance` bytes lie behind. Returns how many
characters were passed and what follows them. -/
def passBytes : List Char → Nat → Nat × List Char
  | rest, 0 => (0, rest)
  | [], _ + 1 => (0, [])
  | character :: rest, distance + 1 =>
      let (passed, after) := passBytes rest (distance + 1 - character.utf8Size)
      (passed + 1, after)

/-- A place in `source`: `byte` bytes and `count` characters lie behind it and `rest`
follows. -/
structure PositionCounter where
  source : List Char
  rest : List Char
  byte : Nat
  count : Nat

namespace PositionCounter

def start (source : List Char) : PositionCounter :=
  { source, rest := source, byte := 0, count := 0 }

/-- The number of characters before a byte offset. Only an offset behind the current
place makes the walk begin again. -/
def seek (counter : PositionCounter) (byte : Nat) : Nat × PositionCounter :=
  let base := if byte < counter.byte then start counter.source else counter
  let (passed, rest) := passBytes base.rest (byte - base.byte)
  let count := base.count + passed
  (count, { base with rest, byte, count })

end PositionCounter

end Calculator
