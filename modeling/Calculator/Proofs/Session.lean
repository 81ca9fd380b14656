import Calculator.Proofs.Counter

/-!
# Sessions that go on after a failure

A session may be asked for one expression after another, whatever became of the ones
before. Each call is the first call of a fresh session on what is left, with the levels
that are left; a failure uses up levels for good, so enough failures end every session.
-/

namespace Calculator

namespace Session

/-- The number of lexemes that are used up. -/
def cursor (session : Session) : Nat :=
  session.lexemes.length - session.rest.length

def place (session : Session) : Place :=
  { cursor := session.cursor, depth := session.depth }

/-- What so many calls come to, in their order, and the session after them. -/
def calls : Nat → Session → List (Except ParseError Expression) × Session
  | 0, session => ([], session)
  | count + 1, session =>
      let (outcomes, reached) := session.calls count
      let (outcome, reached) := reached.next
      (outcomes ++ [outcome], reached)

/-- An error of a fresh session on what is left of this one, as this one reports it: with
its own limit, and with the end of all its lexemes if none of them is left. -/
def relocate (session : Session) : ParseError → ParseError
  | .tooComplex _ => .tooComplex session.limit
  | .unexpectedEnd position =>
      .unexpectedEnd (if session.rest = [] then endPosition session.lexemes else position)
  | error => error

variable {lexemes rest : List Lexeme} {limit : Nat} {session : Session}
  {outcomes : List (Except ParseError Expression)}

theorem next_done {tree : Expression} {shorter : rest.length < session.rest.length}
    (done : Grammar.expression (session.limit - session.depth) session.rest =
      .done tree rest shorter) :
    session.next = (.ok tree, { session with rest }) := by
  simp only [next, done]

theorem next_failed {fault : Fault} {entered : Nat}
    (failed : Grammar.expression (session.limit - session.depth) session.rest =
      .failed fault rest entered) :
    session.next = (.error (fault.report session.limit (endPosition session.lexemes)),
      { session with rest, depth := session.depth + entered }) := by
  simp only [next, failed]

/-- What the calls so far say about a session that started with `lexemes` and `limit`. -/
structure Reached (lexemes : List Lexeme) (limit : Nat)
    (outcomes : List (Except ParseError Expression)) (session : Session) : Prop where
  source : session.lexemes = lexemes
  bound : session.limit = limit
  passed : Passed lexemes session.rest
  failures : outcomes.countP (!·.isOk) ≤ session.depth
  exhausted : ∀ other, .error (.tooComplex other) ∈ outcomes → limit < session.depth

theorem reached_start (lexemes : List Lexeme) (limit : Nat) :
    Reached lexemes limit [] (start lexemes limit) where
  source := rfl
  bound := rfl
  passed := passed_refl lexemes
  failures := Nat.le_refl 0
  exhausted := by simp

theorem report_too_complex {fault : Fault} {finish other : Nat}
    (reported : fault.report limit finish = .tooComplex other) : fault = .tooDeep := by
  cases fault <;> simp [Fault.report] at reported ⊢

theorem reached_next (reached : Reached lexemes limit outcomes session) :
    Reached lexemes limit (outcomes ++ [session.next.1]) session.next.2 := by
  obtain ⟨source, bound, passed, failures, exhausted⟩ := reached
  have advances := Grammar.expression_forward (session.limit - session.depth) session.rest
  have charged := Grammar.expression_charged (session.limit - session.depth) session.rest
  cases reply : Grammar.expression (session.limit - session.depth) session.rest with
  | done tree rest shorter =>
      rw [reply] at advances
      rw [next_done reply]
      refine ⟨source, bound, passed_trans passed advances, ?_, by simpa using exhausted⟩
      rw [List.countP_append]
      exact failures
  | failed fault rest entered =>
      rw [reply] at advances charged
      obtain ⟨further, deep⟩ := advances
      rw [next_failed reply]
      refine ⟨source, bound, passed_trans passed further, ?_, fun other member => ?_⟩
      · rw [List.countP_append]
        exact Nat.add_le_add failures charged
      · rcases List.mem_append.mp member with earlier | last
        · exact Nat.lt_add_right entered (exhausted other earlier)
        · have reported := Except.error.inj (List.mem_singleton.mp last)
          have entered := deep (report_too_complex reported.symm)
          simp only [bound] at entered ⊢
          omega

theorem reached_calls (lexemes : List Lexeme) (limit count : Nat) :
    Reached lexemes limit ((start lexemes limit).calls count).1
      ((start lexemes limit).calls count).2 := by
  induction count with
  | zero => exact reached_start lexemes limit
  | succ count ih => exact reached_next ih

/-! One call of a session that was reached. -/

theorem lexemes_drop (reached : Reached lexemes limit outcomes session) :
    lexemes.drop session.cursor = session.rest := by
  obtain ⟨taken, split, _⟩ := reached.passed
  rw [cursor, reached.source, split]
  simp

theorem cursor_le_finish (reached : Reached lexemes limit outcomes session) :
    session.cursor ≤ lexemes.findIdx (·.token = .finish) := by
  obtain ⟨taken, split, proper⟩ := reached.passed
  rw [cursor, reached.source, split, List.findIdx_append, List.length_append,
    Nat.add_sub_cancel]
  split
  · rename_i early
    obtain ⟨lexeme, member, closing⟩ := List.findIdx_lt_length.mp early
    exact absurd (of_decide_eq_true closing) (proper lexeme member)
  · exact Nat.le_add_left _ _

theorem next_counted (reached : Reached lexemes limit outcomes session) :
    Counter.expression lexemes limit session.place =
      some (session.next.1, session.next.2.place) := by
  obtain ⟨source, bound, passed, _, _⟩ := reached
  have follows := Counter.expression_follows lexemes limit session.depth session.rest passed
  have same : session.place = Counter.before lexemes session.rest session.depth := by
    rw [place, cursor, source]
    rfl
  rw [same, follows]
  cases reply : Grammar.expression (limit - session.depth) session.rest with
  | done tree rest shorter =>
      rw [← bound] at reply
      rw [next_done reply, place, cursor, source]
      rfl
  | failed fault rest entered =>
      rw [← bound] at reply
      rw [next_failed reply, place, cursor, source, bound]
      rfl

theorem calls_counted (lexemes : List Lexeme) (limit count : Nat) :
    Counter.calls lexemes limit count { cursor := 0, depth := 0 } =
      some (((start lexemes limit).calls count).1, ((start lexemes limit).calls count).2.place) := by
  induction count with
  | zero => simp [Counter.calls, calls, place, cursor, start]
  | succ count ih =>
      simp [Counter.calls, ih, next_counted (reached_calls lexemes limit count), calls]

theorem next_exhausted (deep : session.limit ≤ session.depth) :
    session.next = (.error (.tooComplex session.limit),
      { session with depth := session.depth + 1 }) := by
  have failed : Grammar.expression (session.limit - session.depth) session.rest =
      .failed .tooDeep session.rest 1 := by
    rw [Nat.sub_eq_zero_of_le deep]
    rfl
  rw [next_failed failed]
  rfl

theorem end_position_suffix (suffix : rest <:+ lexemes) (nonempty : rest ≠ []) :
    endPosition rest = endPosition lexemes := by
  obtain ⟨taken, rfl⟩ := suffix
  rw [endPosition, endPosition, List.getLast?_append,
    List.getLast?_eq_some_getLast nonempty, Option.some_or]

theorem expression_nil (budget : Nat) : Grammar.expression budget [] =
    .failed (if budget = 0 then .tooDeep else .ended none) [] 1 := by
  cases budget <;> rfl

theorem report_relocated {fault : Fault} {entered : Nat}
    (reached : Reached lexemes limit outcomes session)
    (failed : Grammar.expression (limit - session.depth) session.rest =
      .failed fault rest entered) :
    fault.report limit (endPosition lexemes) = session.relocate
      (fault.report (limit - session.depth) (endPosition session.rest)) := by
  obtain ⟨source, bound, passed, _, _⟩ := reached
  cases fault with
  | unexpected | unclosed => rfl
  | tooDeep => rw [Fault.report, Fault.report, relocate, bound]
  | ended position =>
      rw [Fault.report, Fault.report, relocate, source]
      by_cases empty : session.rest = []
      · -- Where nothing is left there is no closing mark whose place could be reported.
        rw [empty, expression_nil, Reply.failed.injEq] at failed
        have unnamed : position = none := by
          have same := failed.1
          split at same
          · simp at same
          · exact (Fault.ended.inj same).symm
        rw [unnamed, if_pos empty]
        rfl
      · rw [if_neg empty, end_position_suffix (passed_suffix passed) empty]

/-- The call goes as the first one of `fresh` goes. -/
structure Resumes (session fresh : Session) : Prop where
  outcome : session.next.1 = fresh.next.1.mapError session.relocate
  cursor : session.next.2.cursor = session.cursor + fresh.next.2.cursor
  depth : session.next.2.depth = session.depth + fresh.next.2.depth

theorem next_resumes (reached : Reached lexemes limit outcomes session) :
    session.Resumes (start session.rest (limit - session.depth)) := by
  have advances := Grammar.expression_forward (limit - session.depth) session.rest
  have bound := reached.bound
  -- Both cursors count from their own start, which lie a whole number of lexemes apart.
  have apart : ∀ {rest}, Passed session.rest rest → session.lexemes.length - rest.length =
      session.cursor + (session.rest.length - rest.length) := by
    intro rest further
    have fits := (passed_suffix further).length_le
    have whole := (passed_suffix reached.passed).length_le
    rw [cursor, reached.source]
    omega
  cases reply : Grammar.expression (limit - session.depth) session.rest with
  | done tree rest shorter =>
      rw [reply] at advances
      have own := next_done (by rwa [bound])
      have fresh : (start session.rest (limit - session.depth)).next = _ := next_done reply
      constructor <;> rw [own, fresh]
      · rfl
      · exact apart advances
      · rfl
  | failed fault rest entered =>
      rw [reply] at advances
      have own := next_failed (by rwa [bound])
      have fresh : (start session.rest (limit - session.depth)).next = _ := next_failed reply
      constructor <;> rw [own, fresh]
      · rw [bound, reached.source, report_relocated reached reply]
        rfl
      · exact apart advances.1
      · exact (congrArg _ (Nat.zero_add _)).symm

theorem next_success {tree : Expression} (found : session.next.1 = .ok tree)
    (reached : Reached lexemes limit outcomes session) :
    session.next.2.depth = session.depth ∧ session.cursor < session.next.2.cursor := by
  cases reply : Grammar.expression (session.limit - session.depth) session.rest with
  | done tree rest shorter =>
      have whole := (passed_suffix reached.passed).length_le
      rw [← reached.source] at whole
      rw [next_done reply]
      refine ⟨rfl, ?_⟩
      simp only [cursor]
      omega
  | failed fault rest entered => simp [next_failed reply] at found

theorem next_failure {error : ParseError} (failed : session.next.1 = .error error) :
    session.depth < session.next.2.depth := by
  have charged := Grammar.expression_charged (session.limit - session.depth) session.rest
  cases reply : Grammar.expression (session.limit - session.depth) session.rest with
  | done tree rest shorter => simp [next_done reply] at failed
  | failed fault rest entered =>
      rw [reply] at charged
      rw [next_failed reply]
      exact Nat.lt_add_of_pos_right charged

/-- After any number of calls, whatever they came to, the next call of a session is the
first call of a fresh one on the lexemes that are left, with the levels that are left. A
parser with a cursor and a counter goes through the same calls and never leaves a level it
is not in. Only failures use up levels, and when none is left nothing more is read. -/
theorem calls_resume (lexemes : List Lexeme) (limit count : Nat) :
    let outcomes := ((start lexemes limit).calls count).1
    let session := ((start lexemes limit).calls count).2
    session.lexemes = lexemes ∧ session.limit = limit ∧
      Counter.calls lexemes limit count { cursor := 0, depth := 0 } =
        some (outcomes, session.place) ∧
      session.Resumes (start (lexemes.drop session.cursor) (limit - session.depth)) ∧
      (∀ tree, session.next.1 = .ok tree →
        session.next.2.depth = session.depth ∧ session.cursor < session.next.2.cursor) ∧
      (∀ error, session.next.1 = .error error → session.depth < session.next.2.depth) ∧
      session.cursor ≤ lexemes.findIdx (·.token = .finish) ∧
      (limit ≤ outcomes.countP (!·.isOk) ∨ (∃ other, .error (.tooComplex other) ∈ outcomes) →
        session.next.1 = .error (.tooComplex limit) ∧
          session.next.2.cursor = session.cursor) := by
  intro outcomes session
  have reached : Reached lexemes limit outcomes session := reached_calls lexemes limit count
  refine ⟨reached.source, reached.bound, calls_counted lexemes limit count, ?_,
    fun tree found => next_success found reached, fun error failed => next_failure failed,
    cursor_le_finish reached, fun spent => ?_⟩
  · rw [lexemes_drop reached]
    exact next_resumes reached
  · have deep : limit ≤ session.depth := by
      rcases spent with many | ⟨other, complex⟩
      · exact Nat.le_trans many reached.failures
      · exact Nat.le_of_lt (reached.exhausted other complex)
    have bound := reached.bound
    rw [next_exhausted (by rwa [bound]), bound]
    exact ⟨rfl, rfl⟩

end Session

end Calculator
