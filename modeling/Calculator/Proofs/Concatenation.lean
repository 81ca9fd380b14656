import Calculator.Proofs.Scanning

/-!
# Sources joined by a blank

No segment takes a blank as one more character, so a source is cut in front of a blank as if
it ended there. Behind the blank scanning begins anew, and only the positions tell what
stood in front.
-/

namespace Calculator

/-- The lexeme as it is found behind so many more characters. -/
def Lexeme.raised (distance : Nat) (lexeme : Lexeme) : Lexeme :=
  { lexeme with position := distance + lexeme.position }

/-- The unknown token as it is found behind so many more characters. -/
def UnknownToken.raised (distance : Nat) (unknown : UnknownToken) : UnknownToken :=
  { unknown with position := distance + unknown.position }

variable {character : Char} {source text after rest : List Char} {segments others : List Segment}

/-! Cutting in front of a blank -/

/-- A stray text stays stray, since only a point depends on what follows. -/
theorem stray_append (stray : Stray text after) (boundary : Boundary rest) :
    Stray text (after ++ rest) := by
  cases stray with
  | word wellFormed ends unknown => exact .word wellFormed (ends_append ends boundary) unknown
  | @character character after nothing =>
      refine .character (nothing_begins_iff.mpr fun begins => nothing_begins_iff.mp nothing ?_)
      cases after with
      | cons next after => exact begins
      | nil =>
          have noDigit : ¬∃ next ∈ rest.head?, next.isDigit := by
            intro begun
            rcases begun with ⟨next, head, digit⟩
            exact absurd digit (Bool.eq_false_iff.mp (boundary next head).1)
          exact begins.imp_right <| .imp_right <| .imp_right <| .imp_right fun ⟨_, begun⟩ =>
            absurd begun noDigit

/-- The segments in front of a blank, the blank and the segments behind it. -/
theorem segmented_around (first : Segmented source segments [])
    (blank : character ∈ Segment.blanks) (second : Segmented text others rest) :
    Segmented (source ++ character :: text) (segments ++ .blank character :: others) rest :=
  segmented_trans (segmented_append first (boundary_blank blank)) (segmented_blank blank second)

theorem known_around (character : Char) (first : ∀ segment ∈ segments, segment.Known)
    (second : ∀ segment ∈ others, segment.Known) :
    ∀ segment ∈ segments ++ .blank character :: others, segment.Known :=
  List.forall_mem_append.mpr ⟨first, List.forall_mem_cons.mpr ⟨trivial, second⟩⟩

/-! The lexemes on both sides -/

theorem lexemes_append (position : Nat) (segments others : List Segment) :
    Segment.lexemes position (segments ++ others) = Segment.lexemes position segments ++
      Segment.lexemes (position + (segments.flatMap Segment.text).length) others := by
  induction segments generalizing position with
  | nil => rfl
  | cons segment segments ih =>
      have sum : position + segment.text.length + (segments.flatMap Segment.text).length =
          position + ((segment :: segments).flatMap Segment.text).length := by
        rw [List.flatMap_cons, List.length_append, Nat.add_assoc]
      rw [List.cons_append, Segment.lexemes, Segment.lexemes, ih, sum]
      cases segment.token? <;> rfl

theorem lexemes_raised (distance position : Nat) (segments : List Segment) :
    Segment.lexemes (distance + position) segments =
      (Segment.lexemes position segments).map (Lexeme.raised distance) := by
  induction segments generalizing position with
  | nil => rfl
  | cons segment segments ih =>
      rw [Segment.lexemes, Segment.lexemes, Nat.add_assoc, ih]
      cases segment.token? <;> rfl

theorem lexemes_around (character : Char) (segments others : List Segment) :
    Segment.lexemes 0 (segments ++ .blank character :: others) = Segment.lexemes 0 segments ++
      (Segment.lexemes 0 others).map
        (Lexeme.raised ((segments.flatMap Segment.text).length + 1)) := by
  rw [lexemes_append, ← lexemes_raised, Nat.zero_add]
  rfl

theorem closing_dropped (position : Nat) (segments : List Segment) {last : Lexeme}
    (closing : last.token = .finish) :
    (Segment.lexemes position segments ++ [last]).filter (·.token ≠ .finish) =
      Segment.lexemes position segments := by
  have proper : (Segment.lexemes position segments).filter (·.token ≠ .finish) =
      Segment.lexemes position segments := by
    simpa using lexemes_proper segments position
  rw [List.filter_append, proper, List.filter_cons_of_neg (by simp [closing]), List.filter_nil,
    List.append_nil]

/-! The whole source -/

section Joined

variable {first second : String} {blank : Char} {unknown : UnknownToken}
  {found following : List Lexeme}

theorem joined_characters (first second : String) (blank : Char) :
    (first ++ String.singleton blank ++ second).toList =
      first.toList ++ blank :: second.toList := by
  simp

theorem segments_length (segmented : Segmented first.toList segments []) :
    (segments.flatMap Segment.text).length = first.length := by
  have whole := segmented_text segmented
  rw [List.append_nil] at whole
  rw [← whole, String.length_toList]

theorem unknown_in_front (scanned : lexemes first = .error unknown)
    (listed : blank ∈ Segment.blanks) (second : String) :
    lexemes (first ++ String.singleton blank ++ second) = .error unknown := by
  obtain ⟨segments, text, rest, segmented, known, stray, rfl⟩ := lexemes_error_iff.mp scanned
  have boundary := @boundary_blank blank second.toList listed
  have longer := segmented_append segmented boundary
  rw [List.append_assoc, ← joined_characters] at longer
  exact lexemes_stray longer known (stray_append stray boundary)

theorem unknown_behind (scanned : lexemes first = .ok found)
    (listed : blank ∈ Segment.blanks) (rescanned : lexemes second = .error unknown) :
    lexemes (first ++ String.singleton blank ++ second) =
      .error (unknown.raised (first.length + 1)) := by
  obtain ⟨segments, segmented, known, rfl⟩ := lexemes_ok_iff.mp scanned
  obtain ⟨others, text, rest, otherSegmented, otherKnown, stray, rfl⟩ :=
    lexemes_error_iff.mp rescanned
  have joined := segmented_around segmented listed otherSegmented
  rw [← joined_characters] at joined
  rw [lexemes_stray joined (known_around blank known otherKnown) stray, List.flatMap_append,
    List.length_append, segments_length segmented, UnknownToken.raised, Nat.add_assoc,
    Nat.add_comm 1]
  rfl

theorem lexemes_joined (scanned : lexemes first = .ok found)
    (listed : blank ∈ Segment.blanks) (rescanned : lexemes second = .ok following) :
    lexemes (first ++ String.singleton blank ++ second) =
      .ok (found.filter (·.token ≠ .finish) ++
        following.map (Lexeme.raised (first.length + 1))) := by
  obtain ⟨segments, segmented, known, rfl⟩ := lexemes_ok_iff.mp scanned
  obtain ⟨others, otherSegmented, otherKnown, rfl⟩ := lexemes_ok_iff.mp rescanned
  have joined := segmented_around segmented listed otherSegmented
  rw [← joined_characters] at joined
  have length : (first ++ String.singleton blank ++ second).length =
      first.length + 1 + second.length := by
    simp
  rw [lexemes_segmented joined (known_around blank known otherKnown), lexemes_around,
    segments_length segmented, length]
  simp only [closing_dropped 0 segments, List.map_append, List.append_assoc]
  rfl

end Joined

/-- Scanning two sources with a blank between them is scanning each by itself. The lexemes of
the first lose their closing mark, and those of the second are found behind the first and the
blank. What is unknown in the first is reported as in the first alone, and what is unknown in
the second is reported if the first scans, at its raised position. -/
theorem lexing_distributes_over_blanks (first second : String) (blank : Char)
    (listed : blank ∈ Segment.blanks) :
    lexemes (first ++ String.singleton blank ++ second) =
      match lexemes first, lexemes second with
      | .error unknown, _ => .error unknown
      | .ok _, .error unknown => .error (unknown.raised (first.length + 1))
      | .ok found, .ok following => .ok (found.filter (·.token ≠ .finish) ++
          following.map (Lexeme.raised (first.length + 1))) := by
  cases scanned : lexemes first with
  | error unknown => exact unknown_in_front scanned listed second
  | ok found =>
      cases rescanned : lexemes second with
      | error unknown => exact unknown_behind scanned listed rescanned
      | ok following => exact lexemes_joined scanned listed rescanned

/-- The first fault is the one reported. Behind `√2π` and a tab the positions go on from four,
although these are seven bytes. -/
theorem lexing_distributes_over_blanks_symbols :
    '\t' ∈ Segment.blanks ∧
      lexemes ("√2pie" ++ String.singleton '\t' ++ "3@") = .error ⟨2, "pie"⟩ ∧
      lexemes ("√2π" ++ String.singleton '\t' ++ "3@") = .error ⟨5, "@"⟩ ∧
      lexemes ("√2π" ++ String.singleton '\t' ++ "÷.5") = .ok [⟨.name "√", "√", 0⟩,
        ⟨.number 2, "2", 1⟩, ⟨.name "π", "π", 2⟩, ⟨.divide, "÷", 4⟩, ⟨.number 0.5, ".5", 5⟩,
        ⟨.finish, "", 7⟩] := by
  have listed : '\t' ∈ Segment.blanks := by decide
  refine ⟨listed, ?_, ?_, ?_⟩
  · rw [lexing_distributes_over_blanks _ _ _ listed]
    decide +kernel
  · rw [lexing_distributes_over_blanks _ _ _ listed]
    decide +kernel
  · rw [lexing_distributes_over_blanks _ _ _ listed]
    decide +kernel

end Calculator
