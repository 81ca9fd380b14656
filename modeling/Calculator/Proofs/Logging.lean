import Calculator.Command.Log
import Calculator.Proofs.Lexing
import Calculator.Proofs.Run

/-!
# A log changes nothing but the error stream

The events of a run are told in between its messages, which stay what they are without a
log. So a run without directives is the run that is not logged at all.
-/

namespace Calculator.Command

/-- The outcome of the program for its arguments, together with the log. -/
def loggedRun (journal : Journal) (directives : Option String) (clock : Nat → Nat)
    (library : Elementary) (files : String → Except FileFault String)
    (environment : Environment) (arguments : List String) : Outcome :=
  (Request.ofArguments environment arguments).logged journal directives clock library files

/-- What an entry says without a log. -/
def Entry.plain : Entry → String
  | .event _ => ""
  | .message text => text

def plainText (entries : List Entry) : String := String.join (entries.map Entry.plain)

variable {journal : Journal} {directives : Option String} {source : String}
  {found : List Lexeme}

/-! What is told -/

/-- The tokens that are told are those of the lexemes, without the closing mark. -/
theorem token_events_lexed {pieces : List Piece} {counter : PositionCounter} {byte : Nat}
    (lexed : lexemesFrom counter byte pieces = .ok found) :
    ∃ finish, found.map (fun lexeme => Event.token lexeme.token lexeme.position) =
      tokenEvents counter byte pieces ++ [.token .finish finish] := by
  induction pieces generalizing counter byte found with
  | nil =>
      obtain rfl := Except.ok.inj lexed
      exact ⟨_, rfl⟩
  | cons piece rest ih =>
      by_cases blank : ∃ text, piece = .blank text
      · rcases blank with ⟨text, rfl⟩
        exact ih lexed
      · have proper : ∀ text, piece ≠ .blank text := fun text same => blank ⟨text, same⟩
        rw [tokenEvents.eq_3 _ _ _ _ proper]
        cases reads : piece.token? with
        | none =>
            rw [lexemes_from_unknown reads proper] at lexed
            cases lexed
        | some token =>
            rw [lexemes_from_token reads] at lexed
            cases scanned : lexemesFrom (counter.seek byte).2 (byte + utf8Length piece.text)
                rest with
            | error unknown =>
                rw [scanned] at lexed
                cases lexed
            | ok following =>
                rw [scanned] at lexed
                obtain rfl := Except.ok.inj lexed
                obtain ⟨finish, told⟩ := ih scanned
                exact ⟨finish, congrArg (Event.token token _ :: ·) told⟩

/-- The last thing told is what the calculation comes to. -/
theorem calculation_events_last (library : Elementary) (mode : AngleMode) (limit : Nat)
    (source : String) :
    (calculationEvents library mode limit source).getLast? =
      some (match calculate library mode limit source with
        | .ok value => .evaluated value mode
        | .error failure => .failed failure) := by
  simp only [calculationEvents, calculate]
  cases readExpression limit source with
  | error failure => exact List.getLast?_concat
  | ok tree =>
      simp only [bind, Except.bind, List.getLast?_append]
      cases tree.evaluate library mode <;> rfl

/-! What is written -/

@[simp]
theorem plain_text_event (event : Event) (entries : List Entry) :
    plainText (.event event :: entries) = plainText entries := by
  simp [plainText, Entry.plain]

@[simp]
theorem plain_text_message (text : String) (entries : List Entry) :
    plainText (.message text :: entries) = text ++ plainText entries := by
  simp [plainText, Entry.plain]

@[simp]
theorem plain_text_nil : plainText [] = "" := rfl

theorem plain_text_append (first second : List Entry) :
    plainText (first ++ second) = plainText first ++ plainText second := by
  rw [plainText, List.map_append, String.join_append]
  rfl

theorem plain_text_events (events : List Event) : plainText (events.map .event) = "" := by
  induction events with
  | nil => rfl
  | cons event events ih => rwa [List.map_cons, plain_text_event]

theorem plain_text_evaluation (library : Elementary) (settings : Settings)
    (expression : String) :
    plainText (evaluationEntries library settings expression) =
      (evaluateOne library settings expression).errors := by
  rw [evaluationEntries]
  cases outcome : calculate library settings.angleMode settings.maxDepth expression with
  | ok value => simp only [plain_text_events, evaluateOne, outcome]
  | error failure => simp [plain_text_append, plain_text_events]

theorem plain_text_evaluations (library : Elementary) (settings : Settings)
    (expressions : List String) :
    plainText (expressions.flatMap (evaluationEntries library settings)) =
      (evaluateAll library settings expressions).errors := by
  induction expressions with
  | nil => rfl
  | cons expression expressions ih =>
      rw [List.flatMap_cons, plain_text_append, plain_text_evaluation, ih, evaluate_all_cons]
      rfl

theorem plain_text_request (library : Elementary) (files : String → Except FileFault String)
    (request : Request) :
    plainText (request.entries library files) = (request.outcome library files).errors := by
  cases request with
  | flag | misuse => simp [Request.entries]
  | evaluate settings source =>
      cases source with
      | expression text =>
          simp only [Request.entries, plain_text_event, plain_text_evaluation, Request.outcome,
            evaluate_all_single]
      | file path =>
          simp only [Request.entries, plain_text_event, Request.outcome]
          cases files path with
          | ok text => exact plain_text_evaluations library settings _
          | error fault => simp

/-- Nothing that is told is as grave as a warning. -/
theorem warnings_silent (journal : Journal) (event : Event) :
    journal.passes journal.warnings event = false := by
  cases passed : journal.passes journal.warnings event with
  | false => rfl
  | true =>
      have grave := journal.grave event passed
      cases event <;> simp [Event.level] at grave

theorem told_warnings (journal : Journal) (time : Nat) (entry : Entry) :
    journal.told journal.warnings time entry = entry.plain := by
  cases entry with
  | event event => simp [Journal.told, Entry.plain, warnings_silent]
  | message text => rfl

theorem write_unlogged (unlogged : journal.filter directives = journal.warnings)
    (clock : Nat → Nat) (entries : List Entry) :
    journal.write directives clock entries = plainText entries := by
  have same : (entries.mapIdx fun index =>
      journal.told (journal.filter directives) (clock index)) = entries.map Entry.plain := by
    apply List.ext_getElem
    · simp
    · intro index inside _
      simp only [List.getElem_mapIdx, List.getElem_map, unlogged, told_warnings]
  rw [Journal.write, same, plainText]

/-- Without directives, and with directives that are refused, a run is as if there were no
log. -/
theorem logged_run_unlogged (unread : directives.bind journal.read = none) (clock : Nat → Nat)
    (library : Elementary) (files : String → Except FileFault String)
    (environment : Environment) (arguments : List String) :
    loggedRun journal directives clock library files environment arguments =
      run library files environment arguments := by
  have unlogged : journal.filter directives = journal.warnings := by
    rw [Journal.filter, unread]
    rfl
  rw [loggedRun, Request.logged, write_unlogged unlogged, plain_text_request, run]

end Calculator.Command
