import Mathlib.Data.List.TakeWhile
import Calculator.Proofs.Lexing
import Calculator.Proofs.Run

/-!
# No source is an option

A source that can be cut into lexemes has no word and no sign that an option needs, so as an
argument it is an expression, with however many dashes it begins. Only the two dashes that
end the options are a source as well.
-/

namespace Calculator

variable {source : String} {found : List Lexeme} {character : Char}

/-- The characters that a text of the language can have. -/
def InLanguage (character : Char) : Prop :=
  character ∈ Segment.blanks ∨ character.isDigit ∨ character = '.' ∨
    character ∈ Segment.symbols.map Prod.fst ∨ ∃ name ∈ Segment.names, character ∈ name.toList

theorem segment_in_language {segment : Segment} (wellFormed : segment.WellFormed)
    (known : segment.Known) (member : character ∈ segment.text) : InLanguage character := by
  cases segment with
  | blank found =>
      obtain rfl := List.mem_singleton.mp member
      exact .inl wellFormed
  | symbol found =>
      obtain rfl := List.mem_singleton.mp member
      exact .inr (.inr (.inr (.inl wellFormed)))
  | word text =>
      have inside : character ∈ (String.ofList text).toList := by
        rwa [String.toList_ofList]
      exact .inr (.inr (.inr (.inr ⟨_, known, inside⟩)))
  | number text =>
      cases wellFormed with
      | whole _ digits => exact .inr (.inl (digits character member))
      | pointed _ digits further =>
          rcases List.mem_append.mp member with whole | rest
          · exact .inr (.inl (digits character whole))
          rcases List.mem_cons.mp rest with point | fraction
          · exact .inr (.inr (.inl point))
          · exact .inr (.inl (further character fraction))
      | fraction _ digits =>
          rcases List.mem_cons.mp member with point | fraction
          · exact .inr (.inr (.inl point))
          · exact .inr (.inl (digits character fraction))

theorem lexed_in_language (lexed : lexemes source = .ok found)
    (member : character ∈ source.toList) : InLanguage character := by
  obtain ⟨segments, segmented, known, _⟩ := lexemes_ok_iff.mp lexed
  rw [segmented_text segmented, List.append_nil] at member
  obtain ⟨segment, listed, inside⟩ := List.mem_flatMap.mp member
  exact segment_in_language (segmented_well_formed segmented segment listed)
    (known segment listed) inside

namespace Command

theorem option_sign_foreign : ∀ sign ∈ ['=', 'f', 'h', 'V'], ¬InLanguage sign := by
  simp [InLanguage, Segment.blanks, Segment.symbols, Segment.names]

theorem short_name_listed (short : isShortName character) : character ∈ ['=', 'f', 'h', 'V'] := by
  simp only [isShortName, Bool.or_eq_true, decide_eq_true_eq] at short
  rcases short with (rfl | rfl) | rfl <;> decide

theorem long_name_listed {name : String} (known : longName name ≠ none) :
    name ∈ ["file", "angle-mode", "max-depth", "precision", "version", "help"] := by
  unfold longName at known
  split at known <;> simp_all

/-- Not every sign of these names is foreign: `precision` is no word because it is a run of
letters that no name of the language is. -/
theorem long_option_stray :
    ∀ name ∈ ["file", "angle-mode", "max-depth", "precision", "version", "help"],
      (lexemes ("--" ++ name)).toOption = none := by
  decide +kernel

/-- Behind two dashes a source holds no option. -/
theorem long_argument_lexed {body : List Char} (lexed : lexemes source = .ok found)
    (dashes : source.toList = '-' :: '-' :: body) : longArgument? body = none := by
  have noSign : ∀ sign ∈ body, sign ≠ '=' := by
    rintro sign member rfl
    have inside : InLanguage '=' := lexed_in_language lexed (by simp [dashes, member])
    exact option_sign_foreign '=' List.mem_cons_self inside
  have whole : body.takeWhile (· ≠ '=') = body := by
    rw [List.takeWhile_eq_self_iff]
    simpa using noSign
  have unknown : longName (String.ofList body) = none := by
    by_contra known
    have stray := long_option_stray _ (long_name_listed known)
    have spelled : "--" ++ String.ofList body = source := by
      rw [← String.toList_inj, dashes]
      simp
    rw [spelled, lexed] at stray
    cases stray
  simp only [longArgument?, whole, unknown]

/-- The letters behind one dash are not all names of short options. -/
theorem short_argument_lexed {letter : Char} {letters : List Char}
    (lexed : lexemes source = .ok found) (dash : source.toList = '-' :: letter :: letters) :
    (letter :: letters).all isShortName = false := by
  have inside : InLanguage letter := lexed_in_language lexed (by simp [dash])
  have long : isShortName letter = false := by
    by_contra short
    have listed := short_name_listed (Bool.not_eq_false _ ▸ short)
    exact option_sign_foreign letter listed inside
  rw [List.all_cons, long, Bool.false_and]

theorem of_text_lexed (lexed : lexemes source = .ok found) (proper : source ≠ "--") :
    Argument.ofText false source = .text source := by
  simp only [Argument.ofText]
  split
  · rfl
  · rename_i dashes
    exact absurd (String.toList_inj.mp dashes) proper
  · rename_i body _ dashes
    rw [long_argument_lexed lexed dashes]
    rfl
  · rename_i letters alone _ _ dash
    cases letters with
    | nil => exact absurd rfl alone
    | cons letter letters =>
        rw [short_argument_lexed lexed dash]
        rfl
  · rfl

/-- Arguments without an option are taken for what they say, with the defaults. -/
theorem request_expression (text : Argument.ofText false source = .text source) :
    Request.ofArguments { angleMode := none, maxDepth := none } [source] =
      .evaluate { angleMode := .radians, maxDepth := defaultDepthLimit, precision := 10 }
        (.expression source) := by
  have read : Options.empty.read [source] =
      .ok { Options.empty with expression := some source } := by
    rw [Options.read]
    simp only [Options.empty, Option.isSome_none, text]
    rfl
  exact request_of_read read rfl rfl

/-- A source in front of which there is nothing is evaluated in radians, with the defaults,
whatever it begins with. It is neither an option nor misuse: the result is written with at
most ten decimals, or the failure with the source in front of it. -/
theorem source_is_no_option (library : Elementary) (files : String → Except FileFault String)
    (lexed : lexemes source = .ok found) (proper : source ≠ "--") :
    let unset : Environment := { angleMode := none, maxDepth := none }
    Request.ofArguments unset [source] =
      .evaluate { angleMode := .radians, maxDepth := defaultDepthLimit, precision := 10 }
        (.expression source) ∧
    run library files unset [source] =
      match calculate library .radians defaultDepthLimit source with
      | .ok value =>
          { status := 0, output := Numeral.result 10 value ++ "\n", errors := "" }
      | .error failure =>
          { status := 1, output := "", errors := source ++ ": " ++ failure.message ++ "\n" } := by
  intro unset
  have requested := request_expression (of_text_lexed lexed proper)
  refine ⟨requested, ?_⟩
  rw [run, requested]
  exact evaluate_all_single library _ source

/-- Two dashes and a factorial: `--3!`. -/
theorem source_is_no_option_dashes :
    lexemes "--3!" = .ok [⟨.minus, "-", 0⟩, ⟨.minus, "-", 1⟩, ⟨.number 3, "3", 2⟩,
      ⟨.factorial, "!", 3⟩, ⟨.finish, "", 4⟩] ∧
    run .native (fun _ => .error .missing) { angleMode := none, maxDepth := none } ["--3!"] =
      { status := 0, output := "6\n", errors := "" } := by
  have lexed : lexemes "--3!" = .ok [⟨.minus, "-", 0⟩, ⟨.minus, "-", 1⟩, ⟨.number 3, "3", 2⟩,
      ⟨.factorial, "!", 3⟩, ⟨.finish, "", 4⟩] := by
    decide +kernel
  have answered := (source_is_no_option .native (fun _ => .error .missing) lexed (by decide)).2
  exact ⟨lexed, answered.trans (by decide +kernel)⟩

end Command

end Calculator
