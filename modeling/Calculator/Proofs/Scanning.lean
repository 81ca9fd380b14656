import Calculator.Proofs.Decimal
import Calculator.Proofs.Derivation
import Calculator.Proofs.Lexing

/-!
# Scanning a text part by part

A text scans to the tokens of its segments. What is written behind a text does not change
them, as long as it begins with a character that no segment takes.
-/

namespace Calculator

/-- The source is cut into known segments with these tokens. -/
def Scans (source : List Char) (tokens : List Token) : Prop :=
  ∃ segments, Segmented source segments [] ∧ (∀ segment ∈ segments, segment.Known) ∧
    segments.filterMap Segment.token? = tokens

/-- What follows can continue neither a number nor a word. -/
def Boundary (rest : List Char) : Prop :=
  ∀ character ∈ rest.head?,
    character.isDigit = false ∧ character ≠ '.' ∧ character.isAlpha = false

variable {tokens following : List Token} {token : Token} {character : Char}
  {source text rest : List Char} {segment : Segment} {segments : List Segment}

theorem lexemes_tokens (position : Nat) (segments : List Segment) :
    (Segment.lexemes position segments).map Lexeme.token = segments.filterMap Segment.token? := by
  induction segments generalizing position with
  | nil => rfl
  | cons segment segments ih => cases reads : segment.token? <;> simp [Segment.lexemes, reads, ih]

theorem contents_lexemes (position finish : Nat) (segments : List Segment) :
    contents (Segment.lexemes position segments ++
      [{ token := .finish, text := "", position := finish }]) =
    segments.filterMap Segment.token? := by
  rw [contents, List.map_append, lexemes_tokens, List.takeWhile_append_of_pos]
  · simp
  · intro token member
    obtain ⟨segment, _, reads⟩ := List.mem_filterMap.mp member
    simpa using segment_token_ne_finish reads

theorem scans_iff_lexemes {source : String} : Scans source.toList tokens ↔
    ∃ found, lexemes source = .ok found ∧ contents found = tokens := by
  constructor
  · rintro ⟨segments, segmented, known, rfl⟩
    exact ⟨_, lexemes_segmented segmented known, contents_lexemes _ _ _⟩
  · rintro ⟨found, scanned, rfl⟩
    obtain ⟨segments, segmented, known, rfl⟩ := lexemes_ok_iff.mp scanned
    exact ⟨segments, segmented, known, (contents_lexemes _ _ _).symm⟩

theorem boundary_cons {next : Char}
    (plain : next.isDigit = false ∧ next ≠ '.' ∧ next.isAlpha = false) :
    Boundary (next :: rest) := by
  intro character head
  cases head
  exact plain

theorem boundary_ends (boundary : Boundary rest) (segment : Segment) : segment.EndsAt rest := by
  intro next head taken
  obtain ⟨noDigit, noPoint, noLetter⟩ := boundary next head
  cases segment <;> simp_all [Segment.Takes]

theorem ends_append (ends : segment.EndsAt text) (boundary : Boundary rest) :
    segment.EndsAt (text ++ rest) := by
  cases text with
  | nil => exact boundary_ends boundary segment
  | cons next after => exact ends

theorem segmented_append (segmented : Segmented source segments text) (boundary : Boundary rest) :
    Segmented (source ++ rest) segments (text ++ rest) := by
  induction segmented with
  | nil => exact .nil
  | cons wellFormed ends _ ih =>
      rw [List.append_assoc]
      exact .cons wellFormed (ends_append ends boundary) ih

theorem segmented_trans {others : List Segment} (first : Segmented source segments text)
    (second : Segmented text others rest) : Segmented source (segments ++ others) rest := by
  induction first with
  | nil => exact second
  | cons wellFormed ends _ ih => exact .cons wellFormed ends (ih second)

theorem scans_nil : Scans [] [] := ⟨[], .nil, by simp, rfl⟩

theorem scans_append (first : Scans source tokens) (boundary : Boundary rest)
    (second : Scans rest following) : Scans (source ++ rest) (tokens ++ following) := by
  rcases first with ⟨segments, segmented, known, rfl⟩
  rcases second with ⟨others, otherSegmented, otherKnown, rfl⟩
  refine ⟨segments ++ others, segmented_trans (segmented_append segmented boundary)
    otherSegmented, ?_, List.filterMap_append⟩
  intro segment member
  exact (List.mem_append.mp member).elim (known segment) (otherKnown segment)

theorem scans_segment (segment : Segment) (wellFormed : segment.WellFormed)
    (known : segment.Known) (ends : segment.EndsAt rest) (scans : Scans rest tokens) :
    Scans (segment.text ++ rest) (segment.token?.toList ++ tokens) := by
  rcases scans with ⟨segments, segmented, others, rfl⟩
  refine ⟨segment :: segments, .cons wellFormed ends segmented, by simpa [known] using others, ?_⟩
  cases reads : segment.token? <;> simp [reads]

theorem symbol_listed (symbol : Segment.symbols.lookup character = some token) :
    character ∈ Segment.symbols.map Prod.fst := by
  by_contra foreign
  simp [lookup_none foreign] at symbol

theorem boundary_symbol (symbol : Segment.symbols.lookup character = some token) :
    Boundary (character :: rest) :=
  boundary_cons (symbol_plain (symbol_listed symbol)).2

theorem boundary_blank (blank : character ∈ Segment.blanks) : Boundary (character :: rest) := by
  have plain : Segment.blanks.all fun listed =>
      !listed.isDigit && listed != '.' && !listed.isAlpha := by decide
  exact boundary_cons (by simpa [and_assoc] using List.all_eq_true.mp plain character blank)

theorem segmented_blank (blank : character ∈ Segment.blanks)
    (segmented : Segmented source segments rest) :
    Segmented (character :: source) (.blank character :: segments) rest :=
  @Segmented.cons (.blank character) _ _ _ blank (fun _ _ => id) segmented

theorem scans_symbol (symbol : Segment.symbols.lookup character = some token)
    (scans : Scans rest tokens) : Scans (character :: rest) (token :: tokens) := by
  have scanned := scans_segment (.symbol character) (symbol_listed symbol) trivial
    (fun _ _ => id) scans
  rwa [Segment.token?, symbol] at scanned

theorem scans_space (scans : Scans rest tokens) : Scans (' ' :: rest) tokens :=
  scans_segment (.blank ' ') (by decide : ' ' ∈ Segment.blanks) trivial (fun _ _ => id) scans

theorem scans_word {name : List Char} (nonempty : name ≠ []) (letters : name.all Char.isAlpha)
    (known : String.ofList name ∈ Segment.names) (boundary : Boundary rest)
    (scans : Scans rest tokens) :
    Scans (name ++ rest) (.name (String.ofList name) :: tokens) :=
  scans_segment (.word name) ⟨nonempty, List.all_eq_true.mp letters⟩ known
    (boundary_ends boundary _) scans

/-- The name of a function in any of its spellings. -/
theorem scans_function {spelling : String} {function : Function}
    (named : Function.named? spelling = some function)
    (boundary : Boundary rest) (scans : Scans rest tokens) :
    Scans (spelling.toList ++ rest) (.name spelling :: tokens) := by
  have known : spelling ∈ Segment.names ∨ spelling = "√" := by
    unfold Function.named? at named
    split at named <;> simp_all [Segment.names]
  rcases known with word | rfl
  · have letters : ∀ name ∈ Segment.names,
        name.toList ≠ [] ∧ name.toList.all Char.isAlpha := by decide
    obtain ⟨nonempty, letters⟩ := letters spelling word
    have scanned := scans_word nonempty letters (by rwa [String.ofList_toList]) boundary scans
    rwa [String.ofList_toList] at scanned
  · exact scans_symbol rfl scans

theorem scans_number {whole fraction : List Char} (written : Decimal.Written text whole fraction)
    (boundary : Boundary rest) (scans : Scans rest tokens) :
    Scans (text ++ rest) (.number (Decimal.ofText text).toFloat :: tokens) := by
  have number : NumberText text := by
    rw [written.split]
    cases fraction with
    | nil => simpa using NumberText.whole written.nonempty written.wholeDigits
    | cons place places =>
        exact .pointed written.nonempty written.wholeDigits written.fractionDigits
  exact scans_segment (.number text) number trivial (boundary_ends boundary _) scans

end Calculator
