import Calculator.Calculation
import Calculator.Proofs.Scanning
import Calculator.Proofs.Spelling

/-!
# Sources that differ in spacing and spelling

Some tokens can be written in two ways, and blanks may stand between any of them. A source
written anew with other spellings and other blanks has lexemes that mean the same, so it is
read and calculated alike, its failures included.
-/

namespace Calculator

/-- The texts with two spellings. -/
def spellings : List (String × String) :=
  [("*", "×"), ("/", "÷"), ("sqrt", "√"), ("pi", "π")]

/-- The text itself or its other spelling. -/
def Respelled (first second : String) : Prop :=
  first = second ∨ (first, second) ∈ spellings ∨ (second, first) ∈ spellings

/-- The texts one after another, each followed by blanks, which only the last may lack. -/
inductive Spread : List String → List Char → Prop
  | nil : Spread [] []
  | cons {text : String} {texts : List String} {gap rest : List Char}
      (blank : ∀ character ∈ gap, character ∈ Segment.blanks) (apart : texts ≠ [] → gap ≠ []) :
      Spread texts rest → Spread (text :: texts) (text.toList ++ (gap ++ rest))

/-- The source consists of the texts, which are those of the lexemes or their other
spellings, with blanks around them and between any two. The closing mark is not written. -/
structure Rewrites (found : List Lexeme) (texts : List String) (source : String) : Prop where
  respelled : List.Forall₂ Respelled (found.dropLast.map Lexeme.text) texts
  spread : ∃ lead body, source.toList = lead ++ body ∧
    (∀ character ∈ lead, character ∈ Segment.blanks) ∧ Spread texts body

/-- The text is that of a known segment, which stands for the token. -/
structure Segment.Spells (segment : Segment) (text : String) (token : Token) : Prop where
  wellFormed : segment.WellFormed
  known : segment.Known
  written : String.ofList segment.text = text
  reads : segment.token? = some token

variable {source other text first second : String} {token otherToken : Token}
  {segment otherSegment : Segment} {segments : List Segment} {found front : List Lexeme}
  {texts : List String} {gap rest : List Char}

theorem Token.Alike.symm (alike : token.Alike otherToken) : otherToken.Alike token := by
  cases alike with
  | same => exact .same _
  | name function constant => exact .name function.symm constant.symm

/-! One text and its other spelling -/

theorem ends_nil (segment : Segment) : segment.EndsAt [] := by
  simp [Segment.EndsAt]

theorem spells_unique (spells : segment.Spells text token)
    (others : otherSegment.Spells text otherToken) : token = otherToken := by
  have same : segment.text ++ [] = otherSegment.text ++ [] := by
    rw [List.append_nil, List.append_nil]
    exact String.ofList_inj.mp (spells.written.trans others.written.symm)
  obtain ⟨rfl, _⟩ := first_segment_unique spells.wellFormed (ends_nil segment)
    others.wellFormed (ends_nil otherSegment) same
  exact Option.some.inj (spells.reads.symm.trans others.reads)

theorem symbol_spells {character : Char}
    (symbol : Segment.symbols.lookup character = some token) :
    (Segment.symbol character).Spells (String.ofList [character]) token :=
  ⟨symbol_listed symbol, trivial, rfl, symbol⟩

theorem spelling_pair (listed : (first, second) ∈ spellings) :
    ∃ segment token partner otherToken, Segment.Spells segment first token ∧
      Segment.Spells partner second otherToken ∧ token.Alike otherToken := by
  have words : ∀ name ∈ Segment.names, (Segment.word name.toList).Spells name (.name name) := by
    intro name listed
    have letters : ∀ name ∈ Segment.names,
        name.toList ≠ [] ∧ name.toList.all Char.isAlpha := by decide
    obtain ⟨nonempty, letters⟩ := letters name listed
    refine ⟨⟨nonempty, List.all_eq_true.mp letters⟩, ?_, String.ofList_toList, ?_⟩
    · rwa [Segment.Known, String.ofList_toList]
    · rw [Segment.token?, String.ofList_toList]
  simp only [spellings, List.mem_cons, Prod.mk.injEq, List.not_mem_nil, or_false] at listed
  rcases listed with ⟨rfl, rfl⟩ | ⟨rfl, rfl⟩ | ⟨rfl, rfl⟩ | ⟨rfl, rfl⟩
  · exact ⟨_, _, _, _, symbol_spells rfl, symbol_spells rfl, .same .times⟩
  · exact ⟨_, _, _, _, symbol_spells rfl, symbol_spells rfl, .same .divide⟩
  · exact ⟨_, _, _, _, words _ (by decide), symbol_spells rfl, .name rfl rfl⟩
  · exact ⟨_, _, _, _, words _ (by decide), symbol_spells rfl, .name rfl rfl⟩

theorem respelled_spells (spells : segment.Spells first token)
    (respelled : Respelled first second) :
    ∃ partner otherToken, Segment.Spells partner second otherToken ∧ token.Alike otherToken := by
  rcases respelled with rfl | listed | listed
  · exact ⟨segment, token, spells, .same token⟩
  · obtain ⟨_, _, partner, otherToken, here, there, alike⟩ := spelling_pair listed
    exact ⟨partner, otherToken, there, spells_unique spells here ▸ alike⟩
  · obtain ⟨partner, otherToken, _, _, there, here, alike⟩ := spelling_pair listed
    exact ⟨partner, otherToken, there, spells_unique spells here ▸ alike.symm⟩

/-! Blanks -/

theorem gap_ends (blank : ∀ character ∈ gap, character ∈ Segment.blanks)
    (apart : gap ≠ [] ∨ rest = []) (segment : Segment) : segment.EndsAt (gap ++ rest) := by
  cases gap with
  | nil =>
      obtain rfl : rest = [] := by simpa using apart
      exact ends_nil segment
  | cons character gap =>
      exact boundary_ends (boundary_blank (blank character (by simp))) segment

theorem segmented_blanks (blank : ∀ character ∈ gap, character ∈ Segment.blanks)
    (segmented : Segmented rest segments []) :
    Segmented (gap ++ rest) (gap.map .blank ++ segments) [] := by
  induction gap with
  | nil => exact segmented
  | cons character gap ih =>
      have others := ih fun character member => blank character (.tail _ member)
      exact segmented_blank (blank character (by simp)) others

theorem known_blanks (gap : List Char) (known : ∀ segment ∈ segments, segment.Known) :
    ∀ segment ∈ gap.map .blank ++ segments, segment.Known := by
  intro segment member
  rcases List.mem_append.mp member with blank | other
  · obtain ⟨_, _, rfl⟩ := List.mem_map.mp blank
    trivial
  · exact known segment other

theorem lexemes_blanks (position : Nat) (gap : List Char) (segments : List Segment) :
    Segment.lexemes position (gap.map .blank ++ segments) =
      Segment.lexemes (position + gap.length) segments := by
  induction gap generalizing position with
  | nil => rfl
  | cons character gap ih =>
      rw [List.map_cons, List.cons_append, Segment.lexemes]
      simp only [Segment.token?, ih]
      simp [Segment.text, Nat.add_assoc, Nat.add_comm 1]

/-! The whole source -/

theorem lexemes_spelled (wellFormed : ∀ segment ∈ segments, segment.WellFormed)
    (known : ∀ segment ∈ segments, segment.Known) (position : Nat) :
    ∀ lexeme ∈ Segment.lexemes position segments, ∃ segment,
      Segment.Spells segment lexeme.text lexeme.token := by
  induction segments generalizing position with
  | nil => simp [Segment.lexemes]
  | cons segment segments ih =>
      intro lexeme member
      rcases mem_lexemes_cons.mp member with ⟨token, reads, rfl⟩ | later
      · exact ⟨segment, wellFormed _ (by simp), known _ (by simp), rfl, reads⟩
      · exact ih (fun segment member => wellFormed segment (.tail _ member))
          (fun segment member => known segment (.tail _ member)) _ lexeme later

/-- Texts spread out are cut where they were joined, and mean what they meant. -/
theorem spread_segmented (spread : Spread texts rest)
    (spelled : ∀ lexeme ∈ front, ∃ segment, Segment.Spells segment lexeme.text lexeme.token)
    (respelled : List.Forall₂ Respelled (front.map Lexeme.text) texts) :
    ∃ segments, Segmented rest segments [] ∧ (∀ segment ∈ segments, segment.Known) ∧
      ∀ position, (Segment.lexemes position segments).map Lexeme.text = texts ∧
        List.Forall₂ (fun lexeme partner => lexeme.token.Alike partner.token) front
          (Segment.lexemes position segments) := by
  induction spread generalizing front with
  | nil =>
      obtain rfl : front = [] := by simpa using respelled
      exact ⟨[], .nil, by simp, fun _ => ⟨rfl, .nil⟩⟩
  | @cons text texts gap rest blank apart spread ih =>
      cases front with
      | nil => cases respelled
      | cons lexeme front =>
          obtain ⟨here, later⟩ := List.forall₂_cons.mp respelled
          obtain ⟨segment, spells⟩ := spelled lexeme (by simp)
          obtain ⟨segments, segmented, known, scanned⟩ :=
            ih (fun lexeme member => spelled lexeme (.tail _ member)) later
          obtain ⟨partner, token, others, alike⟩ := respelled_spells spells here
          have ends : partner.EndsAt (gap ++ rest) := by
            refine gap_ends blank ?_ partner
            by_cases last : texts = []
            · subst last
              cases spread
              exact .inr rfl
            · exact .inl (apart last)
          refine ⟨partner :: (gap.map .blank ++ segments), ?_, ?_, fun position => ?_⟩
          · rw [← others.written, String.toList_ofList]
            exact .cons others.wellFormed ends (segmented_blanks blank segmented)
          · exact List.forall_mem_cons.mpr ⟨others.known, known_blanks gap known⟩
          · obtain ⟨same, pairs⟩ := scanned (position + partner.text.length + gap.length)
            simp only [Segment.lexemes, others.reads, lexemes_blanks, List.map_cons, same,
              others.written]
            exact ⟨trivial, .cons alike pairs⟩

theorem calculate_scanned (library : Elementary) (mode : AngleMode) (limit : Nat)
    (scanned : lexemes source = .ok found) : calculate library mode limit source =
      ((parse found limit).mapError .parse >>= fun tree =>
        (tree.evaluate library mode).mapError .evaluation) := by
  simp [calculate, readExpression, scanned, Except.mapError, bind, Except.bind]

theorem calculate_same {others : List Lexeme} {limit : Nat} (library : Elementary)
    (mode : AngleMode) (scanned : lexemes source = .ok found)
    (rescanned : lexemes other = .ok others)
    (reading : SameReading found others (parse found limit) (parse others limit)) :
    (∀ value, calculate library mode limit source = .ok value ↔
      calculate library mode limit other = .ok value) ∧
    ∀ error, calculate library mode limit source = .error (.evaluation error) ↔
      calculate library mode limit other = .error (.evaluation error) := by
  rw [calculate_scanned library mode limit scanned, calculate_scanned library mode limit rescanned]
  generalize parse found limit = outcome at reading ⊢
  generalize parse others limit = otherOutcome at reading ⊢
  cases reading <;> simp [Except.mapError, bind, Except.bind]

/-- A source that scans may be written anew, with blanks between its lexemes and each of
them in either spelling. The new source scans to as many lexemes, which mean the same, and
under every limit both are parsed to the same tree or fail at lexemes with the same index.
So they have the same value, or the same failure of evaluation. -/
theorem respelling_keeps_meaning (scanned : lexemes source = .ok found)
    (rewrites : Rewrites found texts other) :
    ∃ others, lexemes other = .ok others ∧
      List.Forall₂ (fun lexeme partner => lexeme.token.Alike partner.token) found others ∧
      others.dropLast.map Lexeme.text = texts ∧
      ∀ limit, SameReading found others (parse found limit) (parse others limit) ∧
        ∀ library mode,
          (∀ value, calculate library mode limit source = .ok value ↔
            calculate library mode limit other = .ok value) ∧
          ∀ error, calculate library mode limit source = .error (.evaluation error) ↔
            calculate library mode limit other = .error (.evaluation error) := by
  obtain ⟨segments, segmented, known, rfl⟩ := lexemes_ok_iff.mp scanned
  obtain ⟨respelled, lead, body, split, blank, spread⟩ := rewrites
  rw [List.dropLast_concat] at respelled
  have spelled := lexemes_spelled (segmented_well_formed segmented) known 0
  obtain ⟨otherSegments, otherSegmented, otherKnown, pairs⟩ :=
    spread_segmented spread spelled respelled
  obtain ⟨same, alike⟩ := pairs lead.length
  have cut := segmented_blanks blank otherSegmented
  rw [← split] at cut
  have rescanned := lexemes_segmented cut (known_blanks lead otherKnown)
  rw [lexemes_blanks, Nat.zero_add] at rescanned
  have marks : List.Forall₂ (fun lexeme partner : Lexeme => lexeme.token.Alike partner.token)
      [⟨.finish, "", source.length⟩] [⟨.finish, "", other.length⟩] := .cons (.same .finish) .nil
  have closed := List.rel_append alike marks
  refine ⟨_, rescanned, closed, by rw [List.dropLast_concat, same], fun limit => ?_⟩
  have reading := parse_same rfl rfl closed limit
  exact ⟨reading, fun library mode => calculate_same library mode scanned rescanned reading⟩

/-- With other spellings and blanks, the parenthesis that is never closed is still the third
lexeme. -/
theorem respelling_keeps_meaning_unclosed :
    ∃ found others, lexemes "2*(pi" = .ok found ∧ lexemes "\t2 ×  ( π" = .ok others ∧
      others.dropLast.map Lexeme.text = ["2", "×", "(", "π"] ∧
      parse found 9 = .error (.unclosedParenthesis 2) ∧
      SameReading found others (parse found 9) (parse others 9) := by
  have scanned : lexemes "2*(pi" = .ok [⟨.number 2, "2", 0⟩, ⟨.times, "*", 1⟩,
      ⟨.opening, "(", 2⟩, ⟨.name "pi", "pi", 3⟩, ⟨.finish, "", 5⟩] := by
    decide +kernel
  have spread : Spread ["2", "×", "(", "π"] "2 ×  ( π".toList :=
    @Spread.cons "2" _ [' '] _ (by simp [Segment.blanks]) (by simp) <|
    @Spread.cons "×" _ [' ', ' '] _ (by simp [Segment.blanks]) (by simp) <|
    @Spread.cons "(" _ [' '] _ (by simp [Segment.blanks]) (by simp) <|
    @Spread.cons "π" _ [] _ (by simp) (by simp) .nil
  have respelled : List.Forall₂ Respelled ["2", "*", "(", "pi"] ["2", "×", "(", "π"] :=
    .cons (.inl rfl) (.cons (.inr (.inl (by decide))) (.cons (.inl rfl)
      (.cons (.inr (.inl (by decide))) .nil)))
  have split : "\t2 ×  ( π".toList = ['\t'] ++ "2 ×  ( π".toList := rfl
  obtain ⟨others, rescanned, _, texts, same⟩ := respelling_keeps_meaning scanned
    ⟨respelled, _, _, split, by simp [Segment.blanks], spread⟩
  exact ⟨_, others, scanned, rescanned, texts, by decide +kernel, (same 9).1⟩

end Calculator
