import Calculator.Token.Scan

/-!
# Segments of a source text

How a text may be cut is said here without a scanner: a segment is a blank or the text of
one token, and it never stands in front of a character that it could take as well. A text
has at most one such cut, which goes on to its end or to a text that is stray.
-/

namespace Calculator

/-- Digits, digits in front of a point and possibly behind it, or a point in front of digits. -/
inductive NumberText : List Char → Prop
  | whole {digits : List Char} :
      digits ≠ [] → (∀ digit ∈ digits, digit.isDigit) → NumberText digits
  | pointed {whole fraction : List Char} :
      whole ≠ [] → (∀ digit ∈ whole, digit.isDigit) → (∀ digit ∈ fraction, digit.isDigit) →
      NumberText (whole ++ '.' :: fraction)
  | fraction {digits : List Char} :
      digits ≠ [] → (∀ digit ∈ digits, digit.isDigit) → NumberText ('.' :: digits)

inductive Segment
  | blank (character : Char)
  | number (text : List Char)
  | word (text : List Char)
  | symbol (character : Char)
deriving DecidableEq, Repr

namespace Segment

def text : Segment → List Char
  | .blank character => [character]
  | .number text => text
  | .word text => text
  | .symbol character => [character]

def blanks : List Char := [' ', '\t', '\r', '\n', '\x0c']

/-- The words of the language. -/
def names : List String := ["sin", "cos", "tan", "log", "ln", "sqrt", "pi", "e"]

/-- The characters that are a token by themselves. -/
def symbols : List (Char × Token) :=
  [('π', .name "π"), ('√', .name "√"), ('+', .plus), ('-', .minus), ('*', .times),
    ('×', .times), ('/', .divide), ('÷', .divide), ('^', .power), ('!', .factorial),
    ('(', .opening), (')', .closing)]

def WellFormed : Segment → Prop
  | .blank character => character ∈ blanks
  | .number text => NumberText text
  | .word text => text ≠ [] ∧ ∀ letter ∈ text, letter.isAlpha
  | .symbol character => character ∈ symbols.map Prod.fst

/-- The character would be one more character of the segment. -/
def Takes : Segment → Char → Prop
  | .number text, next => next.isDigit ∨ next = '.' ∧ '.' ∉ text
  | .word _, next => next.isAlpha
  | .blank _, _ | .symbol _, _ => False

/-- The segment takes nothing of what follows it. -/
def EndsAt (segment : Segment) (rest : List Char) : Prop :=
  ∀ next ∈ rest.head?, ¬segment.Takes next

/-- A word must be one of the language; of other segments nothing is demanded. -/
def Known : Segment → Prop
  | .word text => String.ofList text ∈ names
  | .blank _ | .number _ | .symbol _ => True

def token? : Segment → Option Token
  | .blank _ => none
  | .number text => some (.number (Decimal.ofText text).toFloat)
  | .word text => some (.name (String.ofList text))
  | .symbol character => symbols.lookup character

/-- The lexemes of segments of which the first begins at a position. -/
def lexemes : Nat → List Segment → List Lexeme
  | _, [] => []
  | position, segment :: segments =>
      let following := lexemes (position + segment.text.length) segments
      match segment.token? with
      | none => following
      | some token => { token, text := String.ofList segment.text, position } :: following

end Segment

/-- The segments are cut off the front of a source and leave the rest. Each is judged with
the characters that really follow it. -/
inductive Segmented : List Char → List Segment → List Char → Prop
  | nil {rest : List Char} : Segmented rest [] rest
  | cons {segment : Segment} {segments : List Segment} {after rest : List Char} :
      segment.WellFormed → segment.EndsAt after → Segmented after segments rest →
      Segmented (segment.text ++ after) (segment :: segments) rest

/-- A text in front of a rest that stands for nothing: a whole run of letters that is no
word of the language, or a character with which no segment begins. -/
inductive Stray : List Char → List Char → Prop
  | word {text rest : List Char} :
      (Segment.word text).WellFormed → (Segment.word text).EndsAt rest →
      ¬(Segment.word text).Known → Stray text rest
  | character {character : Char} {rest : List Char} :
      (∀ segment : Segment, segment.WellFormed → ¬segment.text <+: character :: rest) →
      Stray [character] rest

variable {character : Char} {text source after rest : List Char} {segment other : Segment}
  {segments : List Segment}

/-! What the scanner makes of the characters of each class. -/

theorem mem_blanks : character ∈ Segment.blanks ↔ Piece.isBlank character := by
  simp [Segment.blanks, Piece.isBlank, or_assoc]

theorem not_blank {accepts : Char → Bool} (accepted : accepts character)
    (noBlank : Segment.blanks.any accepts = false) : Piece.isBlank character = false := by
  refine Bool.eq_false_iff.mpr fun blank => ?_
  exact List.any_eq_false.mp noBlank character (mem_blanks.mpr blank) accepted

theorem alpha_not_digit (alpha : character.isAlpha) : character.isDigit = false := by
  refine Bool.eq_false_iff.mpr fun digit => ?_
  -- The digits end before the first letter of either case.
  have below : character.val ≤ '9'.val := of_decide_eq_true (Bool.and_eq_true_iff.mp digit).2
  rcases Bool.or_eq_true_iff.mp alpha with upper | lower
  · have above : 'A'.val ≤ character.val := (of_decide_eq_true upper).1
    exact absurd (UInt32.le_trans above below) (by decide)
  · have above : 'a'.val ≤ character.val :=
      of_decide_eq_true (Bool.and_eq_true_iff.mp lower).1
    exact absurd (UInt32.le_trans above below) (by decide)

theorem alpha_not_point (alpha : character.isAlpha) : character ≠ '.' := by
  rintro rfl
  exact absurd alpha (by decide)

theorem take_drop_stops {accepts : Char → Bool} (all : ∀ c ∈ text, accepts c)
    (stops : ∀ c ∈ rest.head?, accepts c = false) :
    (text ++ rest).takeWhile accepts = text ∧ (text ++ rest).dropWhile accepts = rest := by
  rw [List.takeWhile_append_of_pos all, List.dropWhile_append_of_pos all]
  cases rest with
  | nil => simp
  | cons next after => simp [stops next rfl]

/-- Every text begins with a run, perhaps empty, of the accepted characters. -/
theorem run_split (accepts : Char → Bool) (text : List Char) :
    ∃ run after, text = run ++ after ∧ (∀ c ∈ run, accepts c) ∧
      ∀ next ∈ after.head?, accepts next = false := by
  refine ⟨text.takeWhile accepts, text.dropWhile accepts,
    List.takeWhile_append_dropWhile.symm, List.all_eq_true.mp List.all_takeWhile, ?_⟩
  intro next head
  have stops := List.head?_dropWhile_not accepts text
  rwa [Option.mem_def.mp head] at stops

theorem cut_leading {piece : Piece} (leads : Piece.leading character text = (piece, rest)) :
    Piece.cut (character :: text) = piece :: Piece.cut rest := by
  rw [Piece.cut, leads]

theorem cut_blank (blank : character ∈ Segment.blanks) :
    Piece.cut (character :: rest) = .blank (character :: rest.takeWhile Piece.isBlank) ::
      Piece.cut (rest.dropWhile Piece.isBlank) := by
  apply cut_leading
  rw [Piece.leading, if_pos (mem_blanks.mp blank)]

theorem symbol_plain (symbol : character ∈ Segment.symbols.map Prod.fst) :
    Piece.isBlank character = false ∧ character.isDigit = false ∧ character ≠ '.' ∧
      character.isAlpha = false := by
  have plain : (Segment.symbols.map Prod.fst).all fun listed =>
      !Piece.isBlank listed && !listed.isDigit && listed != '.' && !listed.isAlpha := by decide
  simpa [and_assoc] using List.all_eq_true.mp plain character symbol

theorem lookup_none (foreign : character ∉ Segment.symbols.map Prod.fst) :
    Segment.symbols.lookup character = none := by
  refine List.lookup_eq_none_iff.mpr fun entry member => ?_
  have other : character ≠ entry.1 := fun same => foreign (same ▸ List.mem_map_of_mem member)
  simpa using other

theorem cut_single (plain : Piece.isBlank character = false ∧ character.isDigit = false ∧
      character ≠ '.' ∧ character.isAlpha = false) :
    Piece.cut (character :: rest) = .single character :: Piece.cut rest := by
  apply cut_leading
  simp [Piece.leading, plain]

theorem cut_word (wellFormed : (Segment.word text).WellFormed)
    (ends : (Segment.word text).EndsAt rest) :
    Piece.cut (text ++ rest) = .word text :: Piece.cut rest := by
  obtain ⟨nonempty, letters⟩ := wellFormed
  rcases List.exists_cons_of_ne_nil nonempty with ⟨first, others, rfl⟩
  have alpha := letters first List.mem_cons_self
  have otherLetters : ∀ letter ∈ others, letter.isAlpha :=
    fun letter member => letters letter (List.mem_cons_of_mem _ member)
  have stops := take_drop_stops otherLetters
    (fun next head => Bool.eq_false_iff.mpr (ends next head))
  apply cut_leading
  simp [Piece.leading, not_blank alpha (by decide), alpha_not_digit alpha,
    alpha_not_point alpha, alpha, stops]

theorem cut_number (number : NumberText text) (ends : (Segment.number text).EndsAt rest) :
    Piece.cut (text ++ rest) = .number text :: Piece.cut rest := by
  have noDigit : ∀ next ∈ rest.head?, next.isDigit = false :=
    fun next head => Bool.eq_false_iff.mpr fun digit => ends next head (.inl digit)
  cases number with
  | whole nonempty digits =>
      rcases List.exists_cons_of_ne_nil nonempty with ⟨first, others, rfl⟩
      have digit := digits first List.mem_cons_self
      have stops := take_drop_stops
        (fun digit member => digits digit (List.mem_cons_of_mem _ member)) noDigit
      have noPoint : '.' ∉ first :: others :=
        fun member => absurd (digits '.' member) (by decide)
      rw [List.cons_append]
      apply cut_leading
      rw [Piece.leading, if_neg (by simp [not_blank digit (by decide)]), if_pos digit, stops.1,
        stops.2]
      cases rest with
      | nil => rfl
      | cons next after =>
          have other : next ≠ '.' := fun point => ends next rfl (.inr ⟨point, noPoint⟩)
          simp [other]
  | @pointed whole fraction nonempty wholeDigits fractionDigits =>
      rcases List.exists_cons_of_ne_nil nonempty with ⟨first, others, rfl⟩
      have digit := wholeDigits first List.mem_cons_self
      have point : ∀ next ∈ ('.' :: (fraction ++ rest)).head?, next.isDigit = false := by
        simp [Char.isDigit]
      have wholeStops := take_drop_stops
        (fun digit member => wholeDigits digit (List.mem_cons_of_mem _ member)) point
      have stops := take_drop_stops fractionDigits noDigit
      rw [List.append_assoc, List.cons_append, List.cons_append]
      apply cut_leading
      rw [Piece.leading, if_neg (by simp [not_blank digit (by decide)]), if_pos digit,
        wholeStops.1, wholeStops.2]
      simp only [stops, List.cons_append]
  | @fraction digits nonempty fractionDigits =>
      have stops := take_drop_stops fractionDigits noDigit
      rw [List.cons_append]
      apply cut_leading
      rw [Piece.leading, if_neg (by decide), if_neg (by decide), if_pos rfl, stops.1, stops.2]
      cases digits with
      | nil => contradiction
      | cons first others => rfl

namespace Segment

/-- The piece that the scanner finds; of blanks it takes all at once. -/
def piece : Segment → Piece
  | .blank character => .blank [character]
  | .number text => .number text
  | .word text => .word text
  | .symbol character => .single character

theorem piece_text (segment : Segment) : segment.piece.text = segment.text := by
  cases segment <;> rfl

theorem piece_injective (same : segment.piece = other.piece) : segment = other := by
  cases segment <;> cases other <;> simp_all [piece]

theorem cut_proper (wellFormed : segment.WellFormed) (ends : segment.EndsAt rest)
    (proper : ∀ character, segment ≠ .blank character) :
    Piece.cut (segment.text ++ rest) = segment.piece :: Piece.cut rest := by
  cases segment with
  | blank character => exact absurd rfl (proper character)
  | number text => exact cut_number wellFormed ends
  | word text => exact cut_word wellFormed ends
  | symbol character => exact cut_single (symbol_plain wellFormed)

end Segment

/-- The first segment of a text is determined: the scanner would find both. -/
theorem first_segment_unique {otherAfter : List Char} (wellFormed : segment.WellFormed)
    (ends : segment.EndsAt after) (otherWellFormed : other.WellFormed)
    (otherEnds : other.EndsAt otherAfter)
    (same : segment.text ++ after = other.text ++ otherAfter) :
    segment = other ∧ after = otherAfter := by
  by_cases blank : ∃ character, segment = .blank character
  · rcases blank with ⟨character, rfl⟩
    by_cases otherBlank : ∃ character, other = .blank character
    · rcases otherBlank with ⟨otherCharacter, rfl⟩
      simpa [Segment.text] using same
    · have cut := Segment.cut_proper otherWellFormed otherEnds
        fun character found => otherBlank ⟨character, found⟩
      rw [← same, Segment.text, List.singleton_append, cut_blank wellFormed] at cut
      cases other <;> simp_all [Segment.piece]
  · have cut := Segment.cut_proper wellFormed ends fun character found => blank ⟨character, found⟩
    by_cases otherBlank : ∃ character, other = .blank character
    · rcases otherBlank with ⟨character, rfl⟩
      rw [same, Segment.text, List.singleton_append, cut_blank otherWellFormed] at cut
      cases segment <;> simp_all [Segment.piece]
    · have otherCut := Segment.cut_proper otherWellFormed otherEnds
        fun character found => otherBlank ⟨character, found⟩
      rw [← same, cut, List.cons.injEq] at otherCut
      have found := Segment.piece_injective otherCut.1
      subst found
      exact ⟨rfl, List.append_cancel_left same⟩

theorem Segment.text_ne_nil (wellFormed : segment.WellFormed) : segment.text ≠ [] := by
  cases segment with
  | blank | symbol => simp [text]
  | number text => cases wellFormed <;> simp_all [Segment.text]
  | word text => exact wellFormed.1

theorem segmented_cases (segmented : Segmented source segments rest) :
    (segments = [] ∧ source = rest) ∨ ∃ segment others after, segments = segment :: others ∧
      source = segment.text ++ after ∧ segment.WellFormed ∧ segment.EndsAt after ∧
        Segmented after others rest := by
  cases segmented with
  | nil => exact .inl ⟨rfl, rfl⟩
  | cons wellFormed ends segmented =>
      exact .inr ⟨_, _, _, rfl, rfl, wellFormed, ends, segmented⟩

theorem segmented_unique {others : List Segment} {otherRest : List Char}
    (first : Segmented source segments rest) (second : Segmented source others otherRest)
    (whole : rest = []) (otherWhole : otherRest = []) : segments = others := by
  induction first generalizing others with
  | nil =>
      rcases segmented_cases second with ⟨rfl, _⟩ | ⟨segment, _, after, _, split, wellFormed, _⟩
      · rfl
      · have nonempty := Segment.text_ne_nil wellFormed
        simp_all
  | cons wellFormed ends _ ih =>
      rcases segmented_cases second with ⟨_, split⟩ | ⟨other, others, after, rfl, split,
        otherWellFormed, otherEnds, segmented⟩
      · have nonempty := Segment.text_ne_nil wellFormed
        simp_all
      · obtain ⟨rfl, rfl⟩ :=
          first_segment_unique wellFormed ends otherWellFormed otherEnds split
        rw [ih segmented whole]

/-- With what a segment may begin. -/
theorem segment_begins (wellFormed : segment.WellFormed)
    (inside : segment.text <+: character :: rest) :
    character ∈ Segment.blanks ∨ character ∈ Segment.symbols.map Prod.fst ∨ character.isAlpha ∨
      character.isDigit ∨ character = '.' ∧ ∃ next ∈ rest.head?, next.isDigit := by
  rcases inside with ⟨after, split⟩
  cases segment with
  | blank found =>
      obtain ⟨rfl, _⟩ := List.cons.inj split
      exact .inl wellFormed
  | symbol found =>
      obtain ⟨rfl, _⟩ := List.cons.inj split
      exact .inr (.inl wellFormed)
  | word text =>
      rcases List.exists_cons_of_ne_nil wellFormed.1 with ⟨first, others, rfl⟩
      obtain ⟨rfl, _⟩ := List.cons.inj split
      exact .inr (.inr (.inl (wellFormed.2 first List.mem_cons_self)))
  | number text =>
      cases wellFormed with
      | whole nonempty digits | pointed nonempty digits =>
          rcases List.exists_cons_of_ne_nil nonempty with ⟨first, others, rfl⟩
          obtain ⟨rfl, _⟩ := List.cons.inj split
          exact .inr (.inr (.inr (.inl (digits first List.mem_cons_self))))
      | fraction nonempty digits =>
          rcases List.exists_cons_of_ne_nil nonempty with ⟨first, others, rfl⟩
          obtain ⟨rfl, rfl⟩ := List.cons.inj split
          exact .inr (.inr (.inr (.inr ⟨rfl, first, rfl, digits first List.mem_cons_self⟩)))

theorem nothing_begins_iff :
    (∀ segment : Segment, segment.WellFormed → ¬segment.text <+: character :: rest) ↔
      ¬(character ∈ Segment.blanks ∨ character ∈ Segment.symbols.map Prod.fst ∨
        character.isAlpha ∨ character.isDigit ∨
          character = '.' ∧ ∃ next ∈ rest.head?, next.isDigit) := by
  constructor
  · intro nothing begins
    rcases begins with blank | symbol | alpha | digit | ⟨rfl, next, head, digit⟩
    · exact nothing (.blank character) blank ⟨rest, rfl⟩
    · exact nothing (.symbol character) symbol ⟨rest, rfl⟩
    · exact nothing (.word [character]) ⟨by simp, by simpa using alpha⟩ ⟨rest, rfl⟩
    · exact nothing (.number [character]) (.whole (by simp) (by simpa using digit)) ⟨rest, rfl⟩
    · obtain ⟨after, rfl⟩ := List.head?_eq_some_iff.mp head
      exact nothing (.number ['.', next]) (.fraction (by simp) (by simpa using digit))
        ⟨after, rfl⟩
  · intro plain segment wellFormed inside
    exact plain (segment_begins wellFormed inside)

/-- A digit begins a number, with the fraction behind its point if there is one. -/
theorem number_at_digit (digit : character.isDigit) (rest : List Char) :
    ∃ (text after : List Char), character :: rest = text ++ after ∧ NumberText text ∧
      (Segment.number text).EndsAt after := by
  rcases run_split Char.isDigit rest with ⟨run, after, rfl, digits, stops⟩
  have whole : ∀ place ∈ character :: run, place.isDigit := by
    simpa [digit] using digits
  cases after with
  | nil => exact ⟨character :: run, [], rfl, .whole (by simp) whole, by simp [Segment.EndsAt]⟩
  | cons next after =>
      by_cases point : next = '.'
      · subst point
        rcases run_split Char.isDigit after with ⟨places, after, rfl, fraction, ends⟩
        refine ⟨character :: run ++ '.' :: places, after, by simp,
          .pointed (by simp) whole fraction, ?_⟩
        rintro next head (taken | ⟨_, absent⟩)
        · exact absurd taken (Bool.eq_false_iff.mp (ends next head))
        · exact absent (by simp)
      · refine ⟨character :: run, next :: after, rfl, .whole (by simp) whole, ?_⟩
        rintro found head (taken | ⟨same, _⟩)
        · exact absurd taken (Bool.eq_false_iff.mp (stops found head))
        · cases head
          exact point same

/-- At every character a segment begins, unless the character is stray. -/
theorem first_segment_or_stray (character : Char) (rest : List Char) :
    (∃ (segment : Segment) (after : List Char), character :: rest = segment.text ++ after ∧
      segment.WellFormed ∧ segment.EndsAt after) ∨ Stray [character] rest := by
  by_cases begins : ∃ segment : Segment, segment.WellFormed ∧ segment.text <+: character :: rest
  · refine .inl ?_
    rcases begins with ⟨segment, wellFormed, inside⟩
    rcases segment_begins wellFormed inside with blank | symbol | alpha | digit | ⟨rfl, digit⟩
    · exact ⟨.blank character, rest, rfl, blank, fun _ _ => id⟩
    · exact ⟨.symbol character, rest, rfl, symbol, fun _ _ => id⟩
    · rcases run_split Char.isAlpha rest with ⟨run, after, rfl, letters, stops⟩
      refine ⟨.word (character :: run), after, rfl, ⟨by simp, by simpa [alpha] using letters⟩, ?_⟩
      exact fun next head => Bool.eq_false_iff.mp (stops next head)
    · rcases number_at_digit digit rest with ⟨text, after, split, number, ends⟩
      exact ⟨.number text, after, split, number, ends⟩
    · rcases run_split Char.isDigit rest with ⟨run, after, rfl, digits, stops⟩
      refine ⟨.number ('.' :: run), after, rfl, .fraction ?_ digits, ?_⟩
      · rintro rfl
        obtain ⟨next, head, digit⟩ := digit
        exact absurd digit (Bool.eq_false_iff.mp (stops next head))
      · rintro next head (taken | ⟨_, absent⟩)
        · exact absurd taken (Bool.eq_false_iff.mp (stops next head))
        · exact absent List.mem_cons_self
  · exact .inr (.character fun segment wellFormed inside => begins ⟨segment, wellFormed, inside⟩)

/-- A source is cut into known segments to its end, or up to a stray text. -/
theorem segmented_or_stray (source : List Char) :
    ∃ segments rest, Segmented source segments rest ∧ (∀ segment ∈ segments, segment.Known) ∧
      (rest = [] ∨ ∃ text after, rest = text ++ after ∧ Stray text after) := by
  match source with
  | [] => exact ⟨[], [], .nil, by simp, .inl rfl⟩
  | character :: source =>
      rcases first_segment_or_stray character source with
        ⟨segment, after, split, wellFormed, ends⟩ | stray
      · by_cases known : segment.Known
        · have shorter : after.length < (character :: source).length := by
            have positive := List.length_pos_iff.mpr (Segment.text_ne_nil wellFormed)
            rw [split, List.length_append]
            omega
          rcases segmented_or_stray after with ⟨segments, rest, segmented, others, ending⟩
          refine ⟨segment :: segments, rest, split ▸ .cons wellFormed ends segmented, ?_, ending⟩
          simpa [known] using others
        · cases segment with
          | word text =>
              exact ⟨[], _, .nil, by simp, .inr ⟨text, after, split, .word wellFormed ends known⟩⟩
          | blank | number | symbol => exact absurd trivial known
      · exact ⟨[], _, .nil, by simp, .inr ⟨[character], source, rfl, stray⟩⟩
termination_by source.length
decreasing_by exact shorter

end Calculator
