import Calculator.Proofs.Position
import Calculator.Proofs.Segmentation

/-!
# Lexemes are the segments of a source

The scanner takes all blanks at once and counts bytes, a segmentation takes single blanks
and counts characters. Both make the same lexemes, and both stop at the same stray text.
-/

namespace Calculator

/-- How lexemes lie in their source: in order and apart from each other, each where its
text stands, with nothing but blanks around them and a single closing mark behind. -/
structure Layout (source : List Char) (found : List Lexeme) : Prop where
  increasing : found.Pairwise fun left right => left.position < right.position
  apart : found.Pairwise fun left right => left.position + left.text.length ≤ right.position
  placed : ∀ lexeme ∈ found, lexeme.text.toList <+: source.drop lexeme.position
  gaps : ∀ index character, source[index]? = some character → character ∈ Segment.blanks ∨
    ∃ lexeme ∈ found, lexeme.position ≤ index ∧ index < lexeme.position + lexeme.text.length
  closing : found.filter (·.token = .finish) =
    [{ token := .finish, text := "", position := source.length }]

variable {source text tail rest front before : List Char} {character : Char}
  {segment : Segment} {segments : List Segment} {token : Token} {counter : PositionCounter}
  {lexeme : Lexeme} {position byte : Nat}

/-! The tokens of segments are the tokens of pieces. -/

theorem known_name_iff (name : String) :
    isKnownName name ↔ name ∈ Segment.names ∨ name = "π" ∨ name = "√" := by
  constructor
  · intro known
    unfold isKnownName Function.named? Constant.named? at known
    split at known <;> split at known <;> simp_all [Segment.names]
  · intro member
    simp only [Segment.names, List.mem_cons, List.not_mem_nil, or_false] at member
    rcases member with (rfl | rfl | rfl | rfl | rfl | rfl | rfl | rfl) | rfl | rfl <;> decide

theorem word_known (letters : ∀ letter ∈ text, letter.isAlpha) :
    isKnownName (String.ofList text) ↔ (Segment.word text).Known := by
  have foreign : ∀ symbol : Char, symbol.isAlpha = false →
      String.ofList text ≠ String.ofList [symbol] := by
    rintro symbol noLetter same
    have member : symbol ∈ text := by simp [String.ofList_inj.mp same]
    exact absurd (letters symbol member) (Bool.eq_false_iff.mp noLetter)
  rw [known_name_iff]
  constructor
  · rintro (known | pi | root)
    · exact known
    · exact absurd pi (foreign 'π' (by decide))
    · exact absurd root (foreign '√' (by decide))
  · exact .inl

theorem of_symbol_lookup (character : Char) :
    Token.ofSymbol? character = Segment.symbols.lookup character := by
  by_cases symbol : character ∈ Segment.symbols.map Prod.fst
  · have agree : (Segment.symbols.map Prod.fst).all fun listed =>
        Token.ofSymbol? listed = Segment.symbols.lookup listed := by decide
    exact of_decide_eq_true (List.all_eq_true.mp agree character symbol)
  · rw [lookup_none symbol]
    unfold Token.ofSymbol?
    split <;> first | rfl | exact absurd (by decide) symbol

theorem piece_token (wellFormed : segment.WellFormed) (known : segment.Known) :
    segment.piece.token? = segment.token? := by
  cases segment with
  | blank | number => rfl
  | word text => exact if_pos ((word_known wellFormed.2).mpr known)
  | symbol character => exact of_symbol_lookup character

theorem segment_token_ne_finish (reads : segment.token? = some token) : token ≠ .finish := by
  rintro rfl
  cases segment with
  | blank | number | word => simp [Segment.token?] at reads
  | symbol character =>
      have single : (Piece.single character).token? = some .finish :=
        (of_symbol_lookup character).trans reads
      exact Piece.token_ne_finish single rfl

theorem symbol_token (symbol : character ∈ Segment.symbols.map Prod.fst) :
    (Segment.symbol character).token? ≠ none := by
  have tokens : (Segment.symbols.map Prod.fst).all fun listed =>
      (Segment.symbol listed).token? ≠ none := by decide
  exact of_decide_eq_true (List.all_eq_true.mp tokens character symbol)

theorem token_none_iff (wellFormed : segment.WellFormed) :
    segment.token? = none ↔ ∃ character, segment = .blank character := by
  cases segment with
  | blank | number | word => simp [Segment.token?]
  | symbol character => simp [symbol_token wellFormed]

/-! From pieces to segments. -/

theorem lexemes_from_blank (blank : character ∈ Segment.blanks) :
    lexemesFrom counter byte (Piece.cut (character :: rest)) =
      lexemesFrom counter (byte + character.utf8Size) (Piece.cut rest) := by
  rw [cut_blank blank, lexemesFrom, utf8Length, ← Nat.add_assoc]
  cases rest with
  | nil => rfl
  | cons next after =>
      by_cases again : next ∈ Segment.blanks
      · have both := mem_blanks.mp again
        rw [cut_blank again, lexemesFrom, List.takeWhile_cons_of_pos both,
          List.dropWhile_cons_of_pos both]
      · have alone := mt mem_blanks.mpr again
        rw [List.takeWhile_cons_of_neg alone, List.dropWhile_cons_of_neg alone]
        rfl

theorem lexemes_from_token {piece : Piece} {pieces : List Piece}
    (reads : piece.token? = some token) :
    lexemesFrom counter byte (piece :: pieces) =
      (lexemesFrom (counter.seek byte).2 (byte + utf8Length piece.text) pieces).map
        ({ token, text := String.ofList piece.text, position := (counter.seek byte).1 } :: ·) := by
  have proper : ∀ text, piece = .blank text → False := by
    rintro text rfl
    cases reads
  rw [lexemesFrom.eq_3 _ _ _ _ proper]
  simp only [reads, bind, Except.bind, pure, Except.pure]
  cases lexemesFrom (counter.seek byte).2 (byte + utf8Length piece.text) pieces <;> rfl

theorem lexemes_from_unknown {piece : Piece} {pieces : List Piece} (silent : piece.token? = none)
    (proper : ∀ text, piece ≠ .blank text) :
    lexemesFrom counter byte (piece :: pieces) =
      .error { position := (counter.seek byte).1, text := String.ofList piece.text } := by
  rw [lexemesFrom.eq_3 _ _ _ _ proper]
  simp only [silent]

/-- The scanner makes the lexemes of the segments and goes on where they end. -/
theorem lexemes_from_segmented (segmented : Segmented tail segments rest)
    (known : ∀ segment ∈ segments, segment.Known) (behind : counter.Behind source before)
    (split : front ++ tail = source) :
    ∃ (last : PositionCounter) (place : List Char), last.Behind source place ∧
      front ++ segments.flatMap Segment.text ++ rest = source ∧
      lexemesFrom counter (utf8Length front) (Piece.cut tail) =
        (lexemesFrom last (utf8Length (front ++ segments.flatMap Segment.text))
          (Piece.cut rest)).map (Segment.lexemes front.length segments ++ ·) := by
  induction segmented generalizing front before counter with
  | @nil rest =>
      refine ⟨counter, before, behind, by simpa using split, ?_⟩
      simp only [List.flatMap_nil, List.append_nil, Segment.lexemes, List.nil_append]
      cases lexemesFrom counter (utf8Length front) (Piece.cut rest) <;> rfl
  | @cons segment segments after rest wellFormed ends segmented ih =>
      have here : segment.Known := known segment List.mem_cons_self
      have later : ∀ segment ∈ segments, segment.Known :=
        fun segment member => known segment (List.mem_cons_of_mem _ member)
      have beyond : front ++ segment.text ++ after = source := by
        rw [List.append_assoc, split]
      cases reads : segment.token? with
      | none =>
          obtain ⟨character, rfl⟩ := (token_none_iff wellFormed).mp reads
          obtain ⟨last, place, final, whole, scanned⟩ := ih later behind beyond
          refine ⟨last, place, final, by simpa using whole, ?_⟩
          have width : utf8Length front + character.utf8Size =
              utf8Length (front ++ (Segment.blank character).text) := by
            simp [Segment.text, utf8Length]
          rw [Segment.text, List.singleton_append, lexemes_from_blank wellFormed, width, scanned]
          simp [Segment.lexemes, reads]
      | some token =>
          have proper : ∀ character, segment ≠ .blank character := by
            rintro character rfl
            cases reads
          have sought := PositionCounter.seek_behind behind split
          obtain ⟨last, place, final, whole, scanned⟩ := ih later sought.2 beyond
          refine ⟨last, place, final, by simpa using whole, ?_⟩
          have spelled : segment.piece.token? = some token :=
            (piece_token wellFormed here).trans reads
          rw [Segment.cut_proper wellFormed ends proper, lexemes_from_token spelled,
            segment.piece_text, ← utf8_length_append, scanned, sought.1]
          simp only [List.flatMap_cons, List.append_assoc, List.length_append,
            Segment.lexemes, reads]
          cases lexemesFrom last _ (Piece.cut rest) <;> rfl

theorem lexemes_segmented {source : String} (segmented : Segmented source.toList segments [])
    (known : ∀ segment ∈ segments, segment.Known) :
    lexemes source = .ok (Segment.lexemes 0 segments ++
      [{ token := .finish, text := "", position := source.length }]) := by
  obtain ⟨last, place, final, whole, scanned⟩ := lexemes_from_segmented segmented known
    (PositionCounter.start_behind source.toList) (List.nil_append _)
  rw [List.append_nil, List.nil_append] at whole
  have sought := PositionCounter.seek_behind final (List.append_nil source.toList)
  rw [List.nil_append, whole, Piece.cut, lexemesFrom, sought.1] at scanned
  exact scanned

/-- The scanner takes a stray text for one piece that is no token. -/
theorem cut_stray (stray : Stray text rest) :
    ∃ piece, Piece.cut (text ++ rest) = piece :: Piece.cut rest ∧ piece.text = text ∧
      piece.token? = none ∧ ∀ text, piece ≠ .blank text := by
  cases stray with
  | word wellFormed ends unknown =>
      refine ⟨.word text, cut_word wellFormed ends, rfl, ?_, nofun⟩
      exact if_neg (mt (word_known wellFormed.2).mp unknown)
  | @character character rest nothing =>
      simp only [nothing_begins_iff, not_or] at nothing
      obtain ⟨noBlank, noSymbol, noLetter, noDigit, noFraction⟩ := nothing
      have silent : (Piece.single character).token? = none :=
        (of_symbol_lookup character).trans (lookup_none noSymbol)
      refine ⟨.single character, ?_, rfl, silent, nofun⟩
      rw [List.singleton_append]
      apply cut_leading
      rw [Piece.leading, if_neg (mt mem_blanks.mpr noBlank), if_neg noDigit]
      by_cases point : character = '.'
      · subst point
        cases rest with
        | nil => rfl
        | cons next after =>
            have alone : ¬next.isDigit := fun digit => noFraction ⟨rfl, next, rfl, digit⟩
            rw [if_pos rfl, List.takeWhile_cons_of_neg alone]
      · rw [if_neg point, if_neg noLetter]

theorem lexemes_stray {source : String} (segmented : Segmented source.toList segments (text ++ rest))
    (known : ∀ segment ∈ segments, segment.Known) (stray : Stray text rest) :
    lexemes source = .error
      { position := (segments.flatMap Segment.text).length, text := String.ofList text } := by
  obtain ⟨last, place, final, whole, scanned⟩ := lexemes_from_segmented segmented known
    (PositionCounter.start_behind source.toList) (List.nil_append _)
  rw [List.nil_append] at whole
  have sought := PositionCounter.seek_behind final whole
  obtain ⟨piece, cut, same, silent, proper⟩ := cut_stray stray
  rw [List.nil_append, cut, lexemes_from_unknown silent proper, sought.1, same] at scanned
  exact scanned

/-! How the lexemes of segments lie. -/

theorem mem_lexemes_cons : lexeme ∈ Segment.lexemes position (segment :: segments) ↔
    (∃ token, segment.token? = some token ∧
      lexeme = { token, text := String.ofList segment.text, position }) ∨
    lexeme ∈ Segment.lexemes (position + segment.text.length) segments := by
  cases reads : segment.token? <;> simp [Segment.lexemes, reads]

theorem segmented_text (segmented : Segmented source segments rest) :
    source = segments.flatMap Segment.text ++ rest := by
  induction segmented with
  | nil => rfl
  | cons _ _ _ ih => rw [List.flatMap_cons, List.append_assoc, ← ih]

/-- The lexemes of segments lie between the ends of the segments and are not empty. -/
theorem lexemes_within (wellFormed : ∀ segment ∈ segments, segment.WellFormed)
    (member : lexeme ∈ Segment.lexemes position segments) :
    position ≤ lexeme.position ∧ 0 < lexeme.text.length ∧
      lexeme.position + lexeme.text.length ≤
        position + (segments.flatMap Segment.text).length := by
  induction segments generalizing position with
  | nil => simp [Segment.lexemes] at member
  | cons segment segments ih =>
      have positive := List.length_pos_iff.mpr
        (Segment.text_ne_nil (wellFormed segment List.mem_cons_self))
      rw [List.flatMap_cons, List.length_append]
      rcases mem_lexemes_cons.mp member with ⟨token, _, rfl⟩ | later
      · simp only [String.length_ofList]
        omega
      · have bounds := ih (fun segment member => wellFormed segment (.tail _ member)) later
        omega

theorem lexemes_apart (wellFormed : ∀ segment ∈ segments, segment.WellFormed) (position : Nat) :
    (Segment.lexemes position segments).Pairwise fun left right =>
      left.position + left.text.length ≤ right.position := by
  induction segments generalizing position with
  | nil => exact .nil
  | cons segment segments ih =>
      have later : ∀ segment ∈ segments, segment.WellFormed :=
        fun segment member => wellFormed segment (.tail _ member)
      have others := ih later (position + segment.text.length)
      cases reads : segment.token? with
      | none => simpa [Segment.lexemes, reads] using others
      | some token =>
          simp only [Segment.lexemes, reads]
          refine .cons (fun right member => ?_) others
          have bounds := lexemes_within later member
          simpa using bounds.1

theorem lexemes_placed (front : List Char) (segments : List Segment) (rest : List Char)
    (member : lexeme ∈ Segment.lexemes front.length segments) :
    lexeme.text.toList <+:
      (front ++ segments.flatMap Segment.text ++ rest).drop lexeme.position := by
  induction segments generalizing front with
  | nil => simp [Segment.lexemes] at member
  | cons segment segments ih =>
      rcases mem_lexemes_cons.mp member with ⟨token, _, rfl⟩ | later
      · simp [List.append_assoc]
      · rw [← List.length_append] at later
        simpa [List.append_assoc] using ih (front ++ segment.text) later

/-- A character of the segments that no lexeme covers is a blank. -/
theorem lexemes_gaps (wellFormed : ∀ segment ∈ segments, segment.WellFormed)
    (position index : Nat) (found : (segments.flatMap Segment.text)[index]? = some character) :
    character ∈ Segment.blanks ∨ ∃ lexeme ∈ Segment.lexemes position segments,
      lexeme.position ≤ position + index ∧
        position + index < lexeme.position + lexeme.text.length := by
  induction segments generalizing position index with
  | nil => simp at found
  | cons segment segments ih =>
      rw [List.flatMap_cons] at found
      by_cases inside : index < segment.text.length
      · rw [List.getElem?_append_left inside] at found
        cases reads : segment.token? with
        | none =>
            obtain ⟨blank, rfl⟩ := (token_none_iff (wellFormed segment List.mem_cons_self)).mp reads
            have first : index = 0 := by simpa [Segment.text] using inside
            subst first
            obtain rfl : blank = character := by simpa [Segment.text] using found
            exact .inl (wellFormed _ List.mem_cons_self)
        | some token =>
            exact .inr ⟨_, mem_lexemes_cons.mpr (.inl ⟨token, reads, rfl⟩), by simp; omega⟩
      · rw [List.getElem?_append_right (by omega)] at found
        have later : ∀ segment ∈ segments, segment.WellFormed :=
          fun segment member => wellFormed segment (.tail _ member)
        rcases ih later (position + segment.text.length) (index - segment.text.length) found with
          blank | ⟨lexeme, member, covers⟩
        · exact .inl blank
        · exact .inr ⟨lexeme, mem_lexemes_cons.mpr (.inr member), by omega⟩

theorem lexemes_proper (segments : List Segment) (position : Nat) :
    ∀ lexeme ∈ Segment.lexemes position segments, lexeme.token ≠ .finish := by
  induction segments generalizing position with
  | nil => simp [Segment.lexemes]
  | cons segment segments ih =>
      intro lexeme member
      rcases mem_lexemes_cons.mp member with ⟨token, reads, rfl⟩ | later
      · exact segment_token_ne_finish reads
      · exact ih _ lexeme later

theorem segmented_well_formed (segmented : Segmented source segments rest) :
    ∀ segment ∈ segments, segment.WellFormed := by
  induction segmented with
  | nil => simp
  | cons wellFormed _ _ ih => simpa [wellFormed] using ih

theorem segmented_layout (segmented : Segmented source segments []) :
    Layout source (Segment.lexemes 0 segments ++
      [{ token := .finish, text := "", position := source.length }]) := by
  have wellFormed := segmented_well_formed segmented
  have whole : source = segments.flatMap Segment.text := by
    simpa using segmented_text segmented
  have within : ∀ lexeme ∈ Segment.lexemes 0 segments, 0 < lexeme.text.length ∧
      lexeme.position + lexeme.text.length ≤ source.length := by
    intro lexeme member
    have bounds := lexemes_within wellFormed member
    rw [← whole] at bounds
    omega
  have apart := lexemes_apart wellFormed 0
  constructor
  · refine List.pairwise_append.mpr ⟨?_, List.pairwise_singleton _ _, ?_⟩
    · refine apart.imp_of_mem fun {left right} leftMember _ ordered => ?_
      have positive := (within left leftMember).1
      omega
    · intro lexeme member last final
      obtain rfl := List.mem_singleton.mp final
      have bounds := within lexeme member
      simp only
      omega
  · refine List.pairwise_append.mpr ⟨apart, List.pairwise_singleton _ _, ?_⟩
    intro lexeme member last final
    obtain rfl := List.mem_singleton.mp final
    exact (within lexeme member).2
  · intro lexeme member
    rcases List.mem_append.mp member with inside | last
    · have placed := lexemes_placed [] segments [] inside
      simpa [← whole] using placed
    · obtain rfl := List.mem_singleton.mp last
      simp
  · intro index character found
    rw [whole] at found
    refine (lexemes_gaps wellFormed 0 index found).imp_right ?_
    rintro ⟨lexeme, member, covers⟩
    exact ⟨lexeme, List.mem_append_left _ member, by omega⟩
  · have none : (Segment.lexemes 0 segments).filter (·.token = .finish) = [] := by
      simpa [List.filter_eq_nil_iff] using lexemes_proper segments 0
    simp [none]

theorem lexemes_ok_iff {source : String} {found : List Lexeme} : lexemes source = .ok found ↔
    ∃ segments, Segmented source.toList segments [] ∧ (∀ segment ∈ segments, segment.Known) ∧
      found = Segment.lexemes 0 segments ++
        [{ token := .finish, text := "", position := source.length }] := by
  constructor
  · intro scanned
    rcases segmented_or_stray source.toList with
      ⟨segments, rest, segmented, known, rfl | ⟨text, after, rfl, stray⟩⟩
    · rw [lexemes_segmented segmented known] at scanned
      exact ⟨segments, segmented, known, (Except.ok.inj scanned).symm⟩
    · rw [lexemes_stray segmented known stray] at scanned
      cases scanned
  · rintro ⟨segments, segmented, known, rfl⟩
    exact lexemes_segmented segmented known

theorem lexemes_error_iff {source : String} {unknown : UnknownToken} :
    lexemes source = .error unknown ↔ ∃ segments text rest,
      Segmented source.toList segments (text ++ rest) ∧
      (∀ segment ∈ segments, segment.Known) ∧ Stray text rest ∧
      unknown =
        { position := (segments.flatMap Segment.text).length, text := String.ofList text } := by
  constructor
  · intro scanned
    rcases segmented_or_stray source.toList with
      ⟨segments, rest, segmented, known, rfl | ⟨text, after, rfl, stray⟩⟩
    · rw [lexemes_segmented segmented known] at scanned
      cases scanned
    · rw [lexemes_stray segmented known stray] at scanned
      exact ⟨segments, text, after, segmented, known, stray, (Except.error.inj scanned).symm⟩
  · rintro ⟨segments, text, rest, segmented, known, stray, rfl⟩
    exact lexemes_stray segmented known stray

/-- Scanning cuts a source into the longest possible lexemes. It succeeds on the sources
with a segmentation whose words are all known; there is only one, and its texts are the
lexemes, which lie in the source without gaps other than blanks. In any other source it
reports the first stray text, behind segments with known words. -/
theorem lexing_cuts_maximally (source : String) :
    (∀ found, lexemes source = .ok found ↔ ∃ segments, Segmented source.toList segments [] ∧
      (∀ segment ∈ segments, segment.Known) ∧ found = Segment.lexemes 0 segments ++
        [{ token := .finish, text := "", position := source.length }]) ∧
    (∀ first second, Segmented source.toList first [] → Segmented source.toList second [] →
      first = second) ∧
    (∀ found, lexemes source = .ok found → Layout source.toList found) ∧
    ∀ unknown, lexemes source = .error unknown ↔ ∃ segments text rest,
      Segmented source.toList segments (text ++ rest) ∧
      (∀ segment ∈ segments, segment.Known) ∧ Stray text rest ∧
      unknown =
        { position := (segments.flatMap Segment.text).length, text := String.ofList text } := by
  refine ⟨fun _ => lexemes_ok_iff, ?_, ?_, fun _ => lexemes_error_iff⟩
  · intro first second firstSegmented secondSegmented
    exact segmented_unique firstSegmented secondSegmented rfl rfl
  · intro found scanned
    obtain ⟨segments, segmented, _, rfl⟩ := lexemes_ok_iff.mp scanned
    exact segmented_layout segmented

/-- A second point begins another number: `1.2.3 e` has three lexemes. -/
theorem lexing_cuts_maximally_points :
    Segmented "1.2.3 e".toList
      [.number ['1', '.', '2'], .number ['.', '3'], .blank ' ', .word ['e']] [] ∧
    ∃ found, lexemes "1.2.3 e" = .ok found ∧
      found.map Lexeme.text = ["1.2", ".3", "e", ""] ∧ Layout "1.2.3 e".toList found := by
  have word : Segmented ['e'] [.word ['e']] [] :=
    @Segmented.cons (.word ['e']) _ [] _ ⟨by decide, List.all_eq_true.mp rfl⟩ (fun _ => nofun) .nil
  have blank : Segmented [' ', 'e'] [.blank ' ', .word ['e']] [] :=
    @Segmented.cons (.blank ' ') _ ['e'] _ (by decide : ' ' ∈ Segment.blanks) (fun _ _ => id) word
  have second : Segmented ['.', '3', ' ', 'e'] [.number ['.', '3'], .blank ' ', .word ['e']] [] :=
    @Segmented.cons (.number ['.', '3']) _ [' ', 'e'] _ (.fraction (by decide) (List.all_eq_true.mp rfl))
      (by simp [Segment.EndsAt, Segment.Takes]) blank
  have first : Segmented "1.2.3 e".toList
      [.number ['1', '.', '2'], .number ['.', '3'], .blank ' ', .word ['e']] [] :=
    @Segmented.cons (.number ['1', '.', '2']) _ ['.', '3', ' ', 'e'] _
      (@NumberText.pointed ['1'] ['2'] (by decide) (List.all_eq_true.mp rfl)
        (List.all_eq_true.mp rfl))
      (by simp [Segment.EndsAt, Segment.Takes]) second
  have known : ∀ segment ∈ ([.number ['1', '.', '2'], .number ['.', '3'], .blank ' ',
      .word ['e']] : List Segment), segment.Known := by
    simp [Segment.Known, Segment.names]
  obtain ⟨accepted, _, layout, _⟩ := lexing_cuts_maximally "1.2.3 e"
  have scanned := (accepted _).mpr ⟨_, first, known, rfl⟩
  exact ⟨first, _, scanned, rfl, layout _ scanned⟩

end Calculator
