import Calculator.Proofs.Reading

/-!
# The faults of a token list in one pass

An automaton reads the tokens from left to right. It remembers whether an operand or an
operator is due and where the open parentheses stand; binding strength and nesting are
unknown to it. The readers are simulated step by step: as long as the budget lasts,
they stop at the same token for the same reason.
-/

namespace Calculator

variable {input inner : List Lexeme}

/-- What is due: an operand, the parenthesis behind the name of a function, or what
may follow an operand. -/
inductive Mode
  | operand
  | call
  | operator
deriving DecidableEq, Repr

namespace Automaton

/-- Passes over one token; a token without a successor is unexpected. The stack holds
the places of the open parentheses, the innermost first. -/
def step? : Mode → List Nat → Lexeme → Option (Mode × List Nat)
  | .operand, stack, lexeme =>
      match lexeme.token with
      | .number _ => some (.operator, stack)
      | .name name =>
          if (Constant.named? name).isSome then some (.operator, stack)
          else if (Function.named? name).isSome then some (.call, stack)
          else none
      | .minus => some (.operand, stack)
      | .opening => some (.operand, lexeme.position :: stack)
      | _ => none
  | .call, stack, lexeme =>
      match lexeme.token with
      | .opening => some (.operand, lexeme.position :: stack)
      | _ => none
  | .operator, stack, lexeme =>
      match lexeme.token, stack with
      | .plus, _ | .minus, _ | .times, _ | .divide, _ | .power, _ => some (.operand, stack)
      | .factorial, _ => some (.operator, stack)
      | .closing, _ :: outer => some (.operator, outer)
      | _, _ => none

/-- What is said where the input ends. -/
def stop : Mode → List Nat → Nat → Except ParseError Unit
  | .operator, [], _ => .ok ()
  | .operator, opening :: _, _ => .error (.unclosedParenthesis opening)
  | _, _, position => .error (.unexpectedEnd position)

/-- The tokens run out at `finish`; a closing mark ends the input at its own place. -/
def run (finish : Nat) : Mode → List Nat → List Lexeme → Except ParseError Unit
  | mode, stack, [] => stop mode stack finish
  | mode, stack, lexeme :: after =>
      if lexeme.token = .finish then stop mode stack lexeme.position
      else match step? mode stack lexeme with
        | some (mode, stack) => run finish mode stack after
        | none => .error (.unexpectedToken lexeme.position lexeme.described)

/-- The tokens run out behind the text of the last one. -/
def verdict (lexemes : List Lexeme) : Except ParseError Unit :=
  let finish := lexemes.getLast?.elim 0 fun last => last.position + last.text.length
  run finish .operand [] lexemes

variable {finish : Nat} {mode next : Mode} {stack outer : List Nat} {lexeme : Lexeme}
  {after rest : List Lexeme}

theorem step_not_finish (stepped : step? mode stack lexeme = some (next, outer)) :
    lexeme.token ≠ .finish := by
  intro closing
  cases mode <;> simp [step?, closing] at stepped

theorem run_step (stepped : step? mode stack lexeme = some (next, outer)) :
    run finish mode stack (lexeme :: after) = run finish next outer after := by
  rw [run, if_neg (step_not_finish stepped), stepped]

theorem run_unexpected (stuck : step? mode stack lexeme = none)
    (proper : lexeme.token ≠ .finish) :
    run finish mode stack (lexeme :: after) =
      .error (.unexpectedToken lexeme.position lexeme.described) := by
  rw [run, if_neg proper, stuck]

theorem stop_waiting (waiting : mode ≠ .operator) (position : Nat) :
    stop mode stack position = .error (.unexpectedEnd position) := by
  cases mode with
  | operand | call => rfl
  | operator => contradiction

theorem misplaced_unexpected (proper : lexeme.token ≠ .finish) :
    misplaced (lexeme :: after) = .unexpected lexeme := by
  simp only [misplaced]

/-- Where an operand or a call is due and does not begin, the fault is the one of a
misplaced token. -/
theorem run_misplaced (waiting : mode ≠ .operator)
    (stuck : ∀ lexeme ∈ input.head?, step? mode stack lexeme = none) (limit : Nat) :
    run finish mode stack input = .error ((misplaced input).report limit finish) := by
  cases input with
  | nil => exact stop_waiting waiting finish
  | cons lexeme after =>
      by_cases closing : lexeme.token = .finish
      · rw [run, if_pos closing, stop_waiting waiting]
        simp only [misplaced, closing, Fault.report, Option.getD_some]
      · rw [run_unexpected (stuck lexeme rfl) closing, misplaced_unexpected closing]
        rfl

/-- Behind a whole sum only the parenthesis that closes another one can be passed. -/
theorem step_operator_none (settled : lexeme.token.strength < 1)
    (other : lexeme.token = .closing → stack = []) : step? .operator stack lexeme = none := by
  cases token : lexeme.token <;> simp_all [step?, Token.strength]

end Automaton

namespace Reply

open Automaton

/-- A reader agrees with the automaton whose verdict at its start is `verdict`. A tree
leaves the automaton behind an operand, with the same parentheses open; a fault is the
verdict itself. Every level of the depth was paid by one of `count` tokens. -/
def Tracks (finish depth strength : Nat) (stack : List Nat) (verdict : Except ParseError Unit)
    (count : Nat) : Reply input → Prop
  | .done _ rest _ =>
      verdict = run finish .operator stack rest ∧ Settled strength rest ∧
        (contents rest).length ≤ count
  | .failed .tooDeep _ _ => depth ≤ count
  | .failed fault _ _ => ∀ limit, verdict = .error (fault.report limit finish)

variable {finish depth outerDepth strength outerStrength count outerCount : Nat}
  {stack outer : List Nat} {verdict : Except ParseError Unit}

theorem tracks_failed {fault : Fault} {rest : List Lexeme} {entered : Nat}
    (shallow : fault ≠ .tooDeep) (same : ∀ limit, verdict = .error (fault.report limit finish)) :
    (Reply.failed fault rest entered : Reply input).Tracks finish depth strength stack verdict
      count := by
  cases fault with
  | tooDeep => contradiction
  | unexpected | unclosed | ended => exact same

theorem tracks_and_then {reply : Reply inner}
    {next : Expression → (rest : List Lexeme) → rest.length < inner.length → Reply input}
    (tracks : reply.Tracks finish depth strength stack verdict count)
    (paid : depth ≤ count → outerDepth ≤ outerCount)
    (continued : ∀ tree rest shorter, verdict = run finish .operator stack rest →
      Settled strength rest → (contents rest).length ≤ count →
      (next tree rest shorter).Tracks finish outerDepth outerStrength outer verdict outerCount) :
    (reply.andThen next).Tracks finish outerDepth outerStrength outer verdict outerCount := by
  cases reply with
  | done tree rest shorter => exact continued tree rest shorter tracks.1 tracks.2.1 tracks.2.2
  | failed fault rest entered =>
      cases fault with
      | tooDeep => exact paid tracks
      | unexpected | unclosed | ended => exact tracks

theorem tracks_within {reply : Reply inner} {wrap : Expression → Expression}
    {part : inner.length ≤ input.length}
    (tracks : reply.Tracks finish depth strength stack verdict count)
    (paid : depth ≤ count → outerDepth ≤ outerCount) (counted : count ≤ outerCount) :
    (reply.within wrap part).Tracks finish outerDepth strength stack verdict outerCount :=
  tracks_and_then tracks paid fun _ _ _ same settled fewer =>
    ⟨same, settled, Nat.le_trans fewer counted⟩

theorem tracks_enter {reply : Reply input}
    (tracks : reply.Tracks finish depth strength stack verdict count) :
    reply.enter.Tracks finish depth strength stack verdict count := by
  cases reply with
  | done => exact tracks
  | failed fault => cases fault <;> exact tracks

end Reply

namespace Grammar

open Automaton Reply

variable {finish depth strength count : Nat} {stack : List Nat}
  {verdict : Except ParseError Unit} {inside exponent read : Reader}

/-- The reader agrees with the automaton wherever an operand is due. -/
def Tracking (finish depth strength : Nat) (read : Reader) : Prop :=
  ∀ stack input, (read input).Tracks finish depth strength stack
    (run finish .operand stack input) (contents input).length

theorem contents_cons_length {lexeme : Lexeme} {after : List Lexeme}
    (proper : lexeme.token ≠ .finish) :
    (contents (lexeme :: after)).length = (contents after).length + 1 := by
  simp [contents, proper]

theorem settled_five (rest : List Lexeme) : Settled 5 rest := by
  intro lexeme _
  cases lexeme.token <;> simp [Token.strength]

theorem close_tracks {opening : Nat} (tree : Expression) (rest : List Lexeme)
    (shorter : rest.length < input.length)
    (same : verdict = run finish .operator (opening :: stack) rest) (settled : Settled 1 rest)
    (fewer : (contents rest).length ≤ count) :
    (close opening tree rest shorter).Tracks finish depth 5 stack verdict count := by
  cases rest with
  | nil => exact tracks_failed (by simp) fun _ => same
  | cons lexeme after =>
      simp only [close]
      split
      · rename_i closing
        have passed : step? .operator (opening :: stack) lexeme = some (.operator, stack) := by
          simp [step?, closing]
        rw [contents_cons_length (step_not_finish passed)] at fewer
        exact ⟨same.trans (run_step passed), settled_five after, by omega⟩
      · rename_i closing
        refine tracks_failed (by simp) fun _ => ?_
        rw [same, run, if_pos closing]
        rfl
      · rename_i other proper
        refine tracks_failed (by simp) fun _ => ?_
        rw [same, run_unexpected (step_operator_none (settled lexeme rfl) (absurd · other)) proper]
        rfl

/-- A group agrees with the automaton that waits for an operand or for a call. One level
more is paid by its opening parenthesis. -/
theorem group_tracks {mode : Mode} (waiting : mode ≠ .operator)
    (reads : Tracking finish depth 1 inside)
    (stuck : ∀ lexeme ∈ input.head?, lexeme.token ≠ .opening → step? mode stack lexeme = none) :
    (group inside input).Tracks finish (depth + 1) 5 stack (run finish mode stack input)
      (contents input).length := by
  cases input with
  | nil => exact tracks_failed (by simp [misplaced]) (run_misplaced waiting (by simp))
  | cons lexeme after =>
      simp only [group]
      split
      · rename_i opening
        have passed : step? mode stack lexeme = some (.operand, lexeme.position :: stack) := by
          cases mode with
          | operand | call => simp [step?, opening]
          | operator => contradiction
        rw [run_step passed, contents_cons_length (step_not_finish passed)]
        apply tracks_within (tracks_and_then (reads (lexeme.position :: stack) after) id ?_)
          (by omega) (by omega)
        intro tree rest shorter same settled fewer
        exact close_tracks tree rest shorter same settled fewer
      · rename_i other
        apply tracks_failed
        · simp only [misplaced]
          split <;> simp
        · apply run_misplaced waiting
          intro first same
          exact stuck first same (by cases same; exact other)

theorem primary_tracks (reads : Tracking finish depth 1 inside)
    (unsigned : ∀ lexeme ∈ input.head?, lexeme.token ≠ .minus) :
    (primary inside input).Tracks finish (depth + 1) 5 stack (run finish .operand stack input)
      (contents input).length := by
  cases input with
  | nil =>
      exact group_tracks (by simp) reads (by simp)
  | cons lexeme after =>
      simp only [primary]
      split
      · rename_i literal
        have passed : step? .operand stack lexeme = some (.operator, stack) := by
          simp [step?, literal]
        rw [run_step passed, contents_cons_length (step_not_finish passed)]
        exact ⟨rfl, settled_five after, by omega⟩
      · rename_i name named
        split
        · rename_i function _ known
          have noConstant : Constant.named? name = none := by
            cases found : Constant.named? name with
            | none => rfl
            | some constant => simp [function_named_none found] at known
          have passed : step? .operand stack lexeme = some (.call, stack) := by
            simp [step?, named, known, noConstant]
          rw [run_step passed, contents_cons_length (step_not_finish passed)]
          apply tracks_within (group_tracks (by simp) reads ?_) (by omega) (by omega)
          intro first _ other
          simp [step?]
        · rename_i constant _ known
          have passed : step? .operand stack lexeme = some (.operator, stack) := by
            simp [step?, named, known]
          rw [run_step passed, contents_cons_length (step_not_finish passed)]
          exact ⟨rfl, settled_five after, by omega⟩
        · rename_i functionUnknown constantUnknown
          apply tracks_failed (by simp [misplaced, named])
          apply run_misplaced (by simp)
          intro first same
          cases same
          simp [step?, named, functionUnknown, constantUnknown]
      · rename_i notNumber notName
        -- The automaton would pass a minus here, but no primary begins with one.
        apply group_tracks (by simp) reads
        intro first same other
        cases same
        have notMinus := unsigned lexeme rfl
        simp only [step?]

theorem factorials_tracks (tree : Expression) (rest : List Lexeme)
    (shorter : rest.length < input.length) (same : verdict = run finish .operator stack rest)
    (fewer : (contents rest).length ≤ count) :
    (factorials tree rest shorter).Tracks finish depth 4 stack verdict count := by
  fun_induction factorials tree rest shorter with
  | case1 tree shorter => exact ⟨same, by simp [Settled], fewer⟩
  | case2 tree lexeme after shorter mark ih =>
      have passed : step? .operator stack lexeme = some (.operator, stack) := by
        simp [step?, mark]
      rw [contents_cons_length (step_not_finish passed)] at fewer
      exact ih (same.trans (run_step passed)) (by omega)
  | case3 tree lexeme after shorter other =>
      refine ⟨same, ?_, fewer⟩
      apply settled_cons
      cases token : lexeme.token <;> simp_all [Token.strength]

theorem raise_tracks (reads : Tracking finish depth 3 exponent) (tree : Expression)
    (rest : List Lexeme) (shorter : rest.length < input.length)
    (same : verdict = run finish .operator stack rest) (settled : Settled 4 rest)
    (fewer : (contents rest).length ≤ count) :
    (raise exponent tree rest shorter).Tracks finish (depth + 1) 3 stack verdict count := by
  cases rest with
  | nil => exact ⟨same, by simp [Settled], fewer⟩
  | cons lexeme after =>
      simp only [raise]
      split
      · rename_i sign
        have passed : step? .operator stack lexeme = some (.operand, stack) := by
          simp [step?, sign]
        rw [contents_cons_length (step_not_finish passed)] at fewer
        rw [same, run_step passed]
        exact tracks_within (reads stack after) (by omega) (by omega)
      · rename_i other
        refine ⟨same, ?_, fewer⟩
        apply settled_cons
        have weak := settled lexeme rfl
        cases token : lexeme.token <;> simp_all [Token.strength]

theorem power_tracks (insideReads : Tracking finish depth 1 inside)
    (exponentReads : Tracking finish depth 3 exponent)
    (unsigned : ∀ lexeme ∈ input.head?, lexeme.token ≠ .minus) :
    (power inside exponent input).Tracks finish (depth + 1) 3 stack
      (run finish .operand stack input) (contents input).length := by
  have bases : ((primary inside input).andThen factorials).Tracks finish (depth + 1) 4 stack
      (run finish .operand stack input) (contents input).length := by
    apply tracks_and_then (primary_tracks insideReads unsigned) id
    intro tree rest shorter same _ fewer
    exact factorials_tracks tree rest shorter same fewer
  apply tracks_and_then bases id
  intro tree rest shorter same settled fewer
  exact raise_tracks exponentReads tree rest shorter same settled fewer

theorem extend_tracks {operator? : Token → Option BinaryOperator}
    (passes : ∀ {lexeme stack operator}, operator? lexeme.token = some operator →
      step? .operator stack lexeme = some (.operand, stack))
    (ends : ∀ {token}, operator? token = none → token.strength < strength + 1 →
      token.strength < strength)
    (reads : Tracking finish depth (strength + 1) read)
    (left : Expression) (rest : List Lexeme) (shorter : rest.length < input.length)
    (same : verdict = run finish .operator stack rest) (settled : Settled (strength + 1) rest)
    (fewer : (contents rest).length ≤ count) :
    (extend operator? read left rest shorter).Tracks finish depth strength stack verdict
      count := by
  fun_induction extend operator? read left rest shorter with
  | case1 left shorter => exact ⟨same, by simp [Settled], fewer⟩
  | case2 left lexeme after shorter other =>
      exact ⟨same, settled_cons (ends other (settled lexeme rfl)), fewer⟩
  | case3 left lexeme after shorter operator found _ ih =>
      have passed : step? .operator stack lexeme = some (.operand, stack) := passes found
      rw [contents_cons_length (step_not_finish passed)] at fewer
      have reply := reads stack after
      rw [← run_step passed, ← same] at reply
      apply tracks_and_then reply (by omega)
      intro right next progress nextSame nextSettled nextFewer
      exact ih right next progress nextSame nextSettled (by omega)

theorem chain_tracks {operator? : Token → Option BinaryOperator}
    (passes : ∀ {lexeme stack operator}, operator? lexeme.token = some operator →
      step? .operator stack lexeme = some (.operand, stack))
    (ends : ∀ {token}, operator? token = none → token.strength < strength + 1 →
      token.strength < strength)
    (reads : Tracking finish depth (strength + 1) read) :
    Tracking finish depth strength (chain operator? read) := by
  intro stack input
  apply tracks_and_then (reads stack input) id
  intro tree rest shorter same settled fewer
  exact extend_tracks passes ends reads tree rest shorter same settled fewer

theorem product_tracks (reads : Tracking finish depth 3 read) :
    Tracking finish depth 2 (chain Token.multiplicative? read) := by
  refine chain_tracks ?_ ?_ reads
  · intro lexeme stack operator found
    cases token : lexeme.token <;> simp_all [Token.multiplicative?, step?]
  · intro token none weak
    cases token <;> simp_all [Token.multiplicative?, Token.strength]

theorem sum_tracks (reads : Tracking finish depth 3 read) :
    Tracking finish depth 1 (sum read) := by
  refine chain_tracks ?_ ?_ (product_tracks reads)
  · intro lexeme stack operator found
    cases token : lexeme.token <;> simp_all [Token.additive?, step?]
  · intro token none weak
    cases token <;> simp_all [Token.additive?, Token.strength]

theorem signed_tracks (depth : Nat) : Tracking finish depth 3 (signed depth) := by
  induction depth with
  | zero => intro stack input; exact Nat.zero_le _
  | succ depth ih =>
      intro stack input
      by_cases unsigned : ∀ lexeme ∈ input.head?, lexeme.token ≠ .minus
      · rw [signed_succ_power unsigned]
        exact tracks_enter (power_tracks (sum_tracks ih) ih unsigned)
      · cases input with
        | nil => simp at unsigned
        | cons lexeme after =>
            have sign : lexeme.token = .minus := by simpa using unsigned
            have passed : step? .operand stack lexeme = some (.operand, stack) := by
              simp [step?, sign]
            rw [run_step passed, contents_cons_length (step_not_finish passed)]
            simp only [signed, sign]
            exact tracks_enter (tracks_within (ih stack after) (by omega) (by omega))

theorem expression_tracks (depth : Nat) : Tracking finish depth 1 (expression depth) :=
  sum_tracks (signed_tracks depth)

end Grammar

open Automaton

variable {lexemes rest : List Lexeme} {limit finish : Nat} {tree : Expression}

theorem end_position_elim (lexemes : List Lexeme) : endPosition lexemes =
    lexemes.getLast?.elim 0 fun last => last.position + last.text.length := by
  unfold endPosition
  split <;> simp_all

theorem require_end_run {session : Session} (settled : Settled 1 session.rest) :
    session.requireEnd = run finish .operator [] session.rest := by
  unfold Session.requireEnd
  split
  · rename_i same
    rw [same]
    rfl
  · rename_i lexeme after same
    rw [same] at settled ⊢
    split
    · rename_i closing
      rw [run, if_pos closing]
      rfl
    · rename_i proper
      exact (run_unexpected (step_operator_none (settled lexeme rfl) fun _ => rfl) proper).symm

theorem parse_tracks (lexemes : List Lexeme) (limit : Nat) :
    (parse lexemes limit).map (fun _ => ()) = verdict lexemes ∨
      parse lexemes limit = .error (.tooComplex limit) ∧ limit ≤ (contents lexemes).length := by
  rw [verdict, ← end_position_elim]
  have tracks : (Grammar.expression limit lexemes).Tracks (endPosition lexemes) limit 1 []
      (run (endPosition lexemes) .operand [] lexemes) (contents lexemes).length :=
    Grammar.expression_tracks limit [] lexemes
  cases reply : Grammar.expression limit lexemes with
  | done tree rest shorter =>
      rw [reply] at tracks
      obtain ⟨same, settled, _⟩ := tracks
      rw [parse_done reply, same]
      have ends : Session.requireEnd { Session.start lexemes limit with rest } =
          run (endPosition lexemes) .operator [] rest := require_end_run settled
      rw [← ends]
      cases Session.requireEnd { Session.start lexemes limit with rest } <;> exact .inl rfl
  | failed fault rest entered =>
      rw [reply] at tracks
      rw [parse_failed reply]
      cases fault with
      | tooDeep => exact .inr ⟨rfl, tracks⟩
      | unexpected | unclosed | ended => exact .inl (tracks limit).symm

/-- A parse is classified by the automaton: it succeeds where the automaton accepts, and
its fault is the verdict of the automaton. A limit above the number of tokens always
allows this; below, the only other outcome is that the nesting is too deep. -/
theorem parse_classified_by_automaton (lexemes : List Lexeme) :
    (∀ limit, (contents lexemes).length < limit →
      (parse lexemes limit).map (fun _ => ()) = verdict lexemes) ∧
    ∀ limit, (parse lexemes limit).map (fun _ => ()) = verdict lexemes ∨
      parse lexemes limit = .error (.tooComplex limit) := by
  constructor
  · intro limit roomy
    rcases parse_tracks lexemes limit with same | ⟨_, exhausted⟩
    · exact same
    · exact absurd roomy (Nat.not_lt.mpr exhausted)
  · intro limit
    exact (parse_tracks lexemes limit).imp_right And.left

/-- Of two open parentheses the inner one is reported: `(sin(e`. -/
theorem parse_classified_innermost_parenthesis :
    (contents [⟨.opening, "(", 0⟩, ⟨.name "sin", "sin", 1⟩, ⟨.opening, "(", 4⟩,
      ⟨.name "e", "e", 5⟩, ⟨.finish, "", 6⟩]).length < 5 ∧
    (parse [⟨.opening, "(", 0⟩, ⟨.name "sin", "sin", 1⟩, ⟨.opening, "(", 4⟩,
      ⟨.name "e", "e", 5⟩, ⟨.finish, "", 6⟩] 5).map (fun _ => ()) =
      .error (.unclosedParenthesis 4) :=
  ⟨by decide, ((parse_classified_by_automaton _).1 5 (by decide)).trans (by rfl)⟩

end Calculator
