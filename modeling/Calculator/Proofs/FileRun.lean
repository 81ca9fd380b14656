import Mathlib
import Calculator.Proofs.Assignment

/-!
# A file is run line by line

The outcome for a file is put together from the outcomes of its lines, each run by itself
with the same settings. The lines are found here by cutting the text at its line feeds;
white space, blank lines and comments have no part in the outcome.
-/

namespace Calculator

/-- A line that a line feed ends, without the carriage return in front of the line feed. -/
def dropReturn (line : List Char) : List Char :=
  if line.getLast? = some '\r' then line.dropLast else line

/-- The parts between the line feeds. The last one is ended by nothing and keeps a carriage
return. -/
def textLines (text : List Char) : List (List Char) :=
  (text.splitOn '\n').dropLast.map dropReturn ++ (text.splitOn '\n').getLast?.toList

/-- The lines of a text that are evaluated: trimmed, neither empty nor comments. -/
def fileExpressions (text : String) : List String :=
  let lines := (textLines text.toList).map fun line =>
    (line.dropWhile isWhiteSpace).rdropWhile isWhiteSpace
  (lines.filter fun line => line ≠ [] ∧ line.head? ≠ some '#').map String.ofList

variable {line text rest first second : List Char} {character : Char}

/-- A text is a line, or a line in front of a line feed and another text. -/
theorem line_induction {motive : List Char → Prop} (last : ∀ line, '\n' ∉ line → motive line)
    (next : ∀ line rest, '\n' ∉ line → motive rest → motive (line ++ '\n' :: rest))
    (text : List Char) : motive text := by
  suffices behind : ∀ front, '\n' ∉ front → motive (front ++ text) from
    behind [] List.not_mem_nil
  induction text with
  | nil =>
      intro front plain
      rw [List.append_nil]
      exact last front plain
  | cons character text ih =>
      intro front plain
      by_cases ending : character = '\n'
      · rw [ending]
        exact next front text plain (ih [] List.not_mem_nil)
      · have longer := ih (front ++ [character]) (by simp [plain, Ne.symm ending])
        rwa [List.append_assoc] at longer

/-! What the program takes for lines. -/

theorem drop_return_cons (nonempty : line ≠ []) :
    dropReturn (character :: line) = character :: dropReturn line := by
  cases line with
  | nil => contradiction
  | cons next line =>
      simp only [dropReturn, List.getLast?_cons_cons, List.dropLast_cons_cons]
      split <;> rfl

theorem split_lines_cons (plain : '\n' ∉ character :: line) (nonempty : line ≠ []) :
    splitLines (character :: (line ++ rest)) =
      match splitLines (line ++ rest) with
      | [] => [[character]]
      | line :: lines => (character :: line) :: lines := by
  apply splitLines.eq_4
  · rintro rfl
    exact plain List.mem_cons_self
  · intro after _ next
    cases line with
    | nil => contradiction
    | cons found line =>
        obtain ⟨rfl, _⟩ := List.cons.inj next
        exact plain (by simp)

theorem split_lines_line (plain : '\n' ∉ line) (rest : List Char) :
    splitLines (line ++ '\n' :: rest) = dropReturn line :: splitLines rest := by
  induction line with
  | nil =>
      rw [List.nil_append, splitLines]
      rfl
  | cons character line ih =>
      have later : '\n' ∉ line := fun member => plain (List.mem_cons_of_mem _ member)
      cases line with
      | nil =>
          by_cases carriage : character = '\r'
          · rw [carriage, List.singleton_append, splitLines]
            rfl
          · rw [List.singleton_append, splitLines.eq_4, splitLines]
            · simp [dropReturn, carriage]
            · rintro rfl
              exact plain List.mem_cons_self
            · exact fun _ same _ => carriage same
      | cons next line =>
          have nonempty : next :: line ≠ [] := List.cons_ne_nil next line
          rw [List.cons_append, split_lines_cons plain nonempty, ih later,
            drop_return_cons nonempty]

theorem split_lines_last (plain : '\n' ∉ line) :
    splitLines line = if line = [] then [] else [line] := by
  induction line with
  | nil => rfl
  | cons character line ih =>
      have later : '\n' ∉ line := fun member => plain (List.mem_cons_of_mem _ member)
      have split : splitLines (character :: line) = _ := splitLines.eq_4 character line
        (by rintro rfl; exact plain List.mem_cons_self)
        (by rintro after _ rfl; exact later List.mem_cons_self)
      rw [split, ih later]
      cases line <;> simp

theorem text_lines_line (plain : '\n' ∉ line) (rest : List Char) :
    textLines (line ++ '\n' :: rest) = dropReturn line :: textLines rest := by
  have nonempty := List.splitOn_ne_nil '\n' rest
  rw [textLines, textLines, List.splitOn_append_cons_self, List.splitOn_eq_singleton plain,
    List.singleton_append, List.dropLast_cons_of_ne_nil nonempty,
    List.getLast?_cons_of_ne_nil nonempty, List.map_cons, List.cons_append]

theorem text_lines_last (plain : '\n' ∉ line) : textLines line = [line] := by
  rw [textLines, List.splitOn_eq_singleton plain]
  rfl

/-- The program does not count an empty last line. -/
theorem text_lines_split (text : List Char) :
    textLines text = splitLines text ∨ textLines text = splitLines text ++ [[]] := by
  induction text using line_induction with
  | last line plain =>
      rw [text_lines_last plain, split_lines_last plain]
      by_cases empty : line = [] <;> simp [empty]
  | next line rest plain ih =>
      rw [text_lines_line plain, split_lines_line plain]
      simpa using ih

theorem trim_eq (line : List Char) :
    trim line = (line.dropWhile isWhiteSpace).rdropWhile isWhiteSpace := rfl

theorem file_expressions_eq (text : String) : fileExpressions text = Command.expressionsOf text := by
  have trimmed : trim [] = [] := rfl
  simp only [fileExpressions, Command.expressionsOf, ← trim_eq]
  rcases text_lines_split text.toList with same | longer
  · rw [same]
    simp
  · rw [longer]
    simp [trimmed]

/-! Two texts, one behind the other. -/

theorem trim_drop_return (line : List Char) : trim (dropReturn line) = trim line := by
  rw [dropReturn]
  split
  · rename_i ended
    obtain ⟨front, rfl⟩ := List.getLast?_eq_some_iff.mp ended
    rw [List.dropLast_concat, trim_eq, trim_eq, List.dropWhile_append]
    split
    · rename_i blank
      rw [List.isEmpty_iff.mp blank]
      rfl
    · rw [List.rdropWhile_concat_pos _ _ _ (by decide)]
  · rfl

theorem trimmed_lines_append (first second : List Char) :
    (textLines (first ++ '\n' :: second)).map trim =
      (textLines first).map trim ++ (textLines second).map trim := by
  induction first using line_induction with
  | last line plain =>
      rw [text_lines_line plain, text_lines_last plain, List.map_cons, trim_drop_return]
      rfl
  | next line rest plain ih =>
      rw [List.append_assoc, List.cons_append, text_lines_line plain, text_lines_line plain,
        List.map_cons, List.map_cons, ih, List.cons_append]

theorem file_expressions_append (first second : String) :
    fileExpressions (first ++ "\n" ++ second) =
      fileExpressions first ++ fileExpressions second := by
  have whole : (first ++ "\n" ++ second).toList = first.toList ++ '\n' :: second.toList := by
    simp
  simp only [fileExpressions, ← trim_eq, whole]
  rw [trimmed_lines_append, List.filter_append, List.map_append]

namespace Command

/-- What is assigned to a setting by the value that is given for it. -/
def assignmentsOf {α : Type} (setting : Setting) (write : α → String) (given : Option α) :
    List Assignment :=
  (given.map fun value => { setting, value := write value }).toList

def Options.assignments (options : Options) : List Assignment :=
  assignmentsOf .angleMode AngleMode.name options.angleMode ++
    assignmentsOf .maxDepth toString options.maxDepth ++
    assignmentsOf .precision toString options.precision

/-- The arguments for the settings that are given as options. -/
def Options.arguments (options : Options) : List String :=
  let mentions := options.assignments.map fun assignment => { assignment, attached := false }
  mentions.flatMap Mention.arguments

/-- The options say nothing but settings, in numbers that fit a word, and with the variables
of the environment and the defaults they come to these settings. -/
structure Options.Choose (options : Options) (environment : Environment) (settings : Settings) :
    Prop where
  noFile : options.file = none
  noExpression : options.expression = none
  depthFits : ∀ limit ∈ options.maxDepth, limit < 2 ^ 64
  precisionFits : ∀ places ∈ options.precision, places < 2 ^ 64
  settled : options.settings environment = .ok settings

variable {library : Elementary} {settings : Settings} {environment : Environment}
  {options : Options} {path : String} {setting : Setting} {number : Nat}

/-! The outcome of several expressions. -/

theorem evaluate_one_status (library : Elementary) (settings : Settings) (expression : String) :
    (evaluateOne library settings expression).status ≤ 1 := by
  rw [evaluateOne]
  split <;> simp

theorem max_failed {status : Nat} (bounded : status ≤ 1) (others : Prop) [Decidable others] :
    max status (if others then 1 else 0) = if status ≠ 0 ∨ others then 1 else 0 := by
  obtain rfl | rfl : status = 0 ∨ status = 1 := by omega
  · simp
  · rw [if_pos (Or.inl Nat.one_ne_zero)]
    split <;> rfl

/-- One expression after another: both streams are joined, and one failure is enough. -/
theorem evaluate_all_joins (library : Elementary) (settings : Settings)
    (expressions : List String) :
    evaluateAll library settings expressions =
      { status := if ∃ expression ∈ expressions,
            (evaluateOne library settings expression).status ≠ 0 then 1 else 0
        output := String.join (expressions.map fun expression =>
          (evaluateOne library settings expression).output)
        errors := String.join (expressions.map fun expression =>
          (evaluateOne library settings expression).errors) } := by
  induction expressions with
  | nil => simp [evaluateAll, Outcome.nothing]
  | cons expression expressions ih =>
      have bounded := evaluate_one_status library settings expression
      rw [evaluate_all_cons, ih, Outcome.andThen, max_failed bounded]
      simp

theorem evaluate_all_append (library : Elementary) (settings : Settings)
    (first second : List String) :
    evaluateAll library settings (first ++ second) =
      (evaluateAll library settings first).andThen (evaluateAll library settings second) := by
  induction first with
  | nil => simp [evaluateAll, Outcome.nothing, Outcome.andThen]
  | cons expression first ih =>
      rw [List.cons_append, evaluate_all_cons, evaluate_all_cons, ih]
      simp [Outcome.andThen, Nat.max_assoc, String.append_assoc]

/-! Reading the arguments. -/

theorem decimal_digits (number : Nat) : (toString number).toList = Nat.toDigits 10 number := by
  simp

theorem decimal_is_digits (number : Nat) : ∀ digit ∈ Nat.toDigits 10 number, digit.isDigit :=
  fun _ member => Nat.isDigit_of_mem_toDigits (by decide) (by decide) member

theorem decimal_unsigned (number : Nat) : (toString number).toList.head? ≠ some '+' := by
  rw [decimal_digits]
  intro head
  have digit := decimal_is_digits number '+' (List.mem_of_head? head)
  exact absurd digit (by decide)

theorem natural_decimal (word : number < 2 ^ 64) : natural? (toString number) = some number := by
  have unsigned := decimal_unsigned number
  have digits := List.all_eq_true.mpr (decimal_is_digits number)
  have nonempty : (Nat.toDigits 10 number).isEmpty = false :=
    List.isEmpty_eq_false_iff.mpr Nat.toDigits_ne_nil
  rw [decimal_digits] at unsigned
  rw [natural?, decimal_digits]
  split
  · rename_i found
    rw [found] at unsigned
    exact absurd rfl unsigned
  · rw [nonempty, digits, Nat.ofDigitChars_ten_toDigits]
    exact if_pos word

theorem angle_mode_name (mode : AngleMode) : angleMode? mode.name = some mode := by
  cases mode <;> decide +kernel

section Given

variable {α : Type} {write : α → String} {read : String → Option α} {given : Option α}
  {other : Setting} {assignment : Assignment}

theorem mem_assignments_of :
    assignment ∈ assignmentsOf setting write given ↔
      ∃ value ∈ given, { setting, value := write value } = assignment := by
  simp [assignmentsOf]

theorem assigned_own (reads : ∀ value ∈ given, read (write value) = some value) :
    assigned? (assignmentsOf setting write given) setting read = given := by
  cases given with
  | none => rfl
  | some value => simp [assignmentsOf, assigned?, reads]

theorem assigned_other (apart : setting ≠ other) (write : α → String) (given : Option α)
    {β : Type} (read : String → Option β) :
    assigned? (assignmentsOf setting write given) other read = none := by
  apply assigned_foreign
  intro assignment member
  obtain ⟨value, _, rfl⟩ := mem_assignments_of.mp member
  exact apart

theorem setting_assignments_of (setting : Setting) (write : α → String) (given : Option α) :
    ((assignmentsOf setting write given).map Assignment.setting).Sublist [setting] := by
  cases given <;> simp [assignmentsOf]

end Given

theorem assignments_accepted (depthFits : ∀ limit ∈ options.maxDepth, limit < 2 ^ 64)
    (precisionFits : ∀ places ∈ options.precision, places < 2 ^ 64) :
    ∀ assignment ∈ options.assignments, assignment.Accepted := by
  intro assignment member
  simp only [Options.assignments, List.mem_append, mem_assignments_of] at member
  rcases member with (⟨mode, _, rfl⟩ | ⟨limit, given, rfl⟩) | ⟨places, given, rfl⟩
  · exact Option.isSome_of_eq_some (angle_mode_name mode)
  · exact Option.isSome_of_eq_some (natural_decimal (depthFits limit given))
  · exact Option.isSome_of_eq_some (natural_decimal (precisionFits places given))

theorem assignments_once (options : Options) :
    (options.assignments.map Assignment.setting).Nodup := by
  have listed : (options.assignments.map Assignment.setting).Sublist
      [.angleMode, .maxDepth, .precision] := by
    rw [Options.assignments, List.map_append, List.map_append]
    exact ((setting_assignments_of _ _ _).append (setting_assignments_of _ _ _)).append
      (setting_assignments_of _ _ _)
  exact List.Nodup.sublist listed (by decide)

/-- The settings are those that are assigned. -/
theorem assign_assignments (chosen : options.Choose environment settings) :
    Options.empty.assign options.assignments = options := by
  obtain ⟨file, angleMode, maxDepth, precision, expression⟩ := options
  obtain ⟨rfl, rfl, depthFits, precisionFits, _⟩ := chosen
  have mode := @assigned_own .angleMode _ _ _ angleMode fun mode _ => angle_mode_name mode
  have depth := @assigned_own .maxDepth _ _ _ maxDepth fun limit given =>
    natural_decimal (depthFits limit given)
  have places := @assigned_own .precision _ _ _ precision fun places given =>
    natural_decimal (precisionFits places given)
  simp only [Options.assign, Options.empty, Options.assignments, assigned_append, mode, depth,
    places, ne_eq, reduceCtorEq, not_false_eq_true, assigned_other, Option.none_or,
    Option.or_none]

/-- The arguments written for settings are read as these settings. -/
theorem read_arguments (chosen : options.Choose environment settings) (arguments : List String) :
    Options.empty.read (options.arguments ++ arguments) = options.read arguments := by
  have lacks : ∀ assignment ∈ options.assignments, Options.empty.Lacks assignment.setting :=
    fun assignment _ => empty_lacks assignment.setting
  have accepted := assignments_accepted chosen.depthFits chosen.precisionFits
  have same : (options.assignments.map fun assignment =>
      Mention.mk assignment false).map Mention.assignment = options.assignments :=
    (List.map_map ..).trans (List.map_id _)
  have read := read_mentions (by rwa [same]) (by rw [same]; exact assignments_once options)
    (by rwa [same]) arguments
  rwa [same, assign_assignments chosen] at read

/-- The file is asked for behind the settings. -/
theorem run_file {files : String → Except FileFault String} {text : String}
    (chosen : options.Choose environment settings)
    (named : path ≠ "" ∧ Argument.ofText false path = .text path) (found : files path = .ok text) :
    run library files environment (options.arguments ++ ["--file", path]) =
      evaluateAll library settings (fileExpressions text) := by
  have option : Argument.ofText false "--file" = .setting .file none := by decide
  have accepted : path? path = some path := by simp [path?, named.1]
  have read : Options.empty.read (options.arguments ++ ["--file", path]) =
      .ok { options with file := some path } := by
    rw [read_arguments chosen, Options.read]
    simp only [chosen.noExpression, Option.isSome_none, option, named.2, Options.set]
    rw [settle_unset chosen.noFile accepted]
    rfl
  have sourced : Options.source { options with file := some path } = .ok (.file path) := by
    rw [Options.source, chosen.noExpression]
  rw [run, request_of_read read sourced chosen.settled]
  simp only [Request.outcome, found, file_expressions_eq]

/-- Behind the terminator a line is an expression, whatever it begins with. -/
theorem run_line {files : String → Except FileFault String}
    (chosen : options.Choose environment settings) (line : String) :
    run library files environment (options.arguments ++ ["--", line]) =
      evaluateOne library settings line := by
  have terminator : Argument.ofText false "--" = .terminator := by decide
  have read : Options.empty.read (options.arguments ++ ["--", line]) =
      .ok { options with expression := some line } := by
    rw [read_arguments chosen, Options.read]
    simp only [chosen.noExpression, Option.isSome_none, terminator]
    simp [Options.setExpression, chosen.noExpression]
  have sourced : Options.source { options with expression := some line } =
      .ok (.expression line) := by
    rw [Options.source, chosen.noFile]
  rw [run, request_of_read read sourced chosen.settled]
  simp only [Request.outcome, evaluate_all_single]

/-- Any settings can be chosen, whatever the environment says. -/
theorem every_setting_chosen (environment : Environment) (depthFits : settings.maxDepth < 2 ^ 64)
    (precisionFits : settings.precision < 2 ^ 64) :
    Options.Choose { Options.empty with
        angleMode := some settings.angleMode
        maxDepth := some settings.maxDepth
        precision := some settings.precision } environment settings where
  noFile := rfl
  noExpression := rfl
  depthFits := by simpa using depthFits
  precisionFits := by simpa using precisionFits
  settled := rfl

/-- The run of a file writes what the runs of its lines write, in their order, and fails if
one of them fails. So the outcome for two texts, one behind the other, is put together from
the outcomes for both. -/
theorem file_run_joins_lines (library : Elementary) (files : String → Except FileFault String)
    (chosen : options.Choose environment settings)
    (named : path ≠ "" ∧ Argument.ofText false path = .text path) :
    let runFile := fun text => run library (fun _ => .ok text) environment
      (options.arguments ++ ["--file", path])
    let runLine := fun line => run library files environment (options.arguments ++ ["--", line])
    (∀ text, runFile text =
      { status := if ∃ line ∈ fileExpressions text, (runLine line).status ≠ 0 then 1 else 0
        output := String.join ((fileExpressions text).map fun line => (runLine line).output)
        errors := String.join ((fileExpressions text).map fun line => (runLine line).errors) }) ∧
    ∀ first second, runFile (first ++ "\n" ++ second) =
      { status := max (runFile first).status (runFile second).status
        output := (runFile first).output ++ (runFile second).output
        errors := (runFile first).errors ++ (runFile second).errors } := by
  have file : ∀ text, run library (fun _ => .ok text) environment
      (options.arguments ++ ["--file", path]) =
        evaluateAll library settings (fileExpressions text) :=
    fun text => run_file chosen named rfl
  have single : ∀ line, run library files environment (options.arguments ++ ["--", line]) =
      evaluateOne library settings line := fun line => run_line chosen line
  simp only [file, single]
  refine ⟨fun text => evaluate_all_joins library settings _, fun first second => ?_⟩
  · rw [file_expressions_append, evaluate_all_append, Outcome.andThen]

/-- A line that fails, a comment and a blank line do not disturb the last line. -/
theorem file_run_joins_lines_failure :
    fileExpressions "2+\r\n# halves\n\n 1/4 " = ["2+", "1/4"] ∧
      run .native (fun _ => .ok "2+\r\n# halves\n\n 1/4 ") { angleMode := none, maxDepth := none }
        ["--angle-mode", "degrees", "--max-depth", "9", "--precision", "3", "--file", "sums"] =
      { status := 1
        output := "0.25\n"
        errors := "2+: Error at position 2: Unexpected end of input.\n" } := by
  have expressions : fileExpressions "2+\r\n# halves\n\n 1/4 " = ["2+", "1/4"] := by
    rw [file_expressions_eq]
    decide +kernel
  have chosen := @every_setting_chosen { angleMode := .degrees, maxDepth := 9, precision := 3 }
    { angleMode := none, maxDepth := none } (by decide) (by decide)
  have first : run .native (fun _ => .error .missing) { angleMode := none, maxDepth := none }
      ["--angle-mode", "degrees", "--max-depth", "9", "--precision", "3", "--", "2+"] =
      { status := 1
        output := ""
        errors := "2+: Error at position 2: Unexpected end of input.\n" } := by
    decide +kernel
  have second : run .native (fun _ => .error .missing) { angleMode := none, maxDepth := none }
      ["--angle-mode", "degrees", "--max-depth", "9", "--precision", "3", "--", "1/4"] =
      { status := 0, output := "0.25\n", errors := "" } := by
    decide +kernel
  have named : "sums" ≠ "" ∧ Argument.ofText false "sums" = .text "sums" := by decide
  have joined := (file_run_joins_lines .native (fun _ => .error .missing) chosen named).1
    "2+\r\n# halves\n\n 1/4 "
  have written : Options.arguments { Options.empty with
      angleMode := some .degrees, maxDepth := some 9, precision := some 3 } =
      ["--angle-mode", "degrees", "--max-depth", "9", "--precision", "3"] := by
    decide +kernel
  simp only [written, expressions, List.cons_append, List.nil_append] at joined
  refine ⟨expressions, joined.trans ?_⟩
  simp [first, second]

end Command

end Calculator
