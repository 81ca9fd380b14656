import Calculator.Proofs.Progress

/-!
# Reading with a cursor and a counter

The readers know a budget and the lexemes that are left. Here the same grammar is read by
a parser that has one cursor and one counter for all its calls: every level adds one to the
counter, and takes it back only when it ends well. The two agree in every state.
-/

namespace Calculator

/-- The next lexeme is the one at the cursor; `depth` levels were entered and not left. -/
structure Place where
  cursor : Nat
  depth : Nat
deriving DecidableEq, Repr

/-- What a parser does at a place. A failure keeps the place it was found at. There is no
outcome at all if a level is left that was not entered, or if the bound of a recursion does
not reach. -/
abbrev Steps := ExceptT ParseError (StateT Place Option)

namespace Counter

section Parser

variable (lexemes : List Lexeme) (limit : Nat)

def peek : Steps (Option Lexeme) := do
  return lexemes[(← get).cursor]?

/-- Lexemes that run out are followed by a closing mark. -/
def peekToken : Steps Token := do
  return (← peek lexemes).elim .finish Lexeme.token

def advance : Steps Unit := do
  if (← peek lexemes).isSome then
    modify fun place => { place with cursor := place.cursor + 1 }

def unexpected : Steps Expression := do
  match ← peek lexemes with
  | none => throw (.unexpectedEnd (endPosition lexemes))
  | some lexeme =>
      match lexeme.token with
      | .finish => throw (.unexpectedEnd lexeme.position)
      | _ => throw (.unexpectedToken lexeme.position lexeme.described)

def enter : Steps Unit := do
  modify fun place => { place with depth := place.depth + 1 }
  if limit < (← get).depth then throw (.tooComplex limit)

def leave : Steps Unit := fun place =>
  match place.depth with
  | 0 => none
  | depth + 1 => some (.ok (), { place with depth })

/-- The further operands of one level. Each has an operator in front of it, so the number
of lexemes bounds the loop. -/
def joined (operator? : Token → Option BinaryOperator) (operand : Steps Expression) :
    (bound : Nat) → Expression → Steps Expression
  | 0, _ => fun _ => none
  | bound + 1, left => do
      match operator? (← peekToken lexemes) with
      | none => return left
      | some operator =>
          advance lexemes
          let right ← operand
          joined operator? operand bound (.binary operator left right)

def chain (operator? : Token → Option BinaryOperator) (operand : Steps Expression) :
    Steps Expression := do
  joined lexemes operator? operand (lexemes.length + 1) (← operand)

def sum (operand : Steps Expression) : Steps Expression :=
  chain lexemes Token.additive? (chain lexemes Token.multiplicative? operand)

def expectClosing (opening : Nat) : Steps Unit := do
  match ← peek lexemes with
  | none => throw (.unclosedParenthesis opening)
  | some lexeme =>
      match lexeme.token with
      | .closing => advance lexemes
      | .finish => throw (.unclosedParenthesis opening)
      | _ => throw (.unexpectedToken lexeme.position lexeme.described)

def group (inside : Steps Expression) : Steps Expression := do
  match ← peek lexemes with
  | none => unexpected lexemes
  | some lexeme =>
      match lexeme.token with
      | .opening =>
          advance lexemes
          let tree ← inside
          expectClosing lexemes lexeme.position
          return tree
      | _ => unexpected lexemes

def primary (inside : Steps Expression) : Steps Expression := do
  match ← peekToken lexemes with
  | .number value =>
      advance lexemes
      return .number value
  | .name name =>
      match Function.named? name, Constant.named? name with
      | some function, _ =>
          advance lexemes
          return .call function (← group lexemes inside)
      | none, some constant =>
          advance lexemes
          return .constant constant
      | none, none => unexpected lexemes
  | .opening => group lexemes inside
  | _ => unexpected lexemes

/-- One factorial for every mark that follows. -/
def marked : (bound : Nat) → Expression → Steps Expression
  | 0, _ => fun _ => none
  | bound + 1, tree => do
      match ← peekToken lexemes with
      | .factorial =>
          advance lexemes
          marked bound (.unary .factorial tree)
      | _ => return tree

def raised (exponent : Steps Expression) (base : Expression) : Steps Expression := do
  match ← peekToken lexemes with
  | .power =>
      advance lexemes
      return .binary .power base (← exponent)
  | _ => return base

def power (inside exponent : Steps Expression) : Steps Expression := do
  raised lexemes exponent (← marked lexemes (lexemes.length + 1) (← primary lexemes inside))

/-- What stands on one level, above operands that stand on the next one. -/
def level (operand : Steps Expression) : Steps Expression := do
  match ← peekToken lexemes with
  | .minus =>
      advance lexemes
      return .unary .negate (← operand)
  | _ => power lexemes (sum lexemes operand) operand

/-- The counter stops the recursion before the bound does. -/
def signed : (bound : Nat) → Steps Expression
  | 0 => fun _ => none
  | bound + 1 => do
      enter limit
      let tree ← level lexemes (signed bound)
      leave
      return tree

/-- A whole expression. -/
def expression : Steps Expression := sum lexemes (signed lexemes limit (limit + 1))

/-- The outcomes of so many calls of one parser, and its place after them. -/
def calls : Nat → Place → Option (List (Except ParseError Expression) × Place)
  | 0, place => some ([], place)
  | count + 1, place => do
      let (outcomes, place) ← calls count place
      let (outcome, place) ← expression lexemes limit place
      return (outcomes ++ [outcome], place)

end Parser

/-! What the single steps do at a place. -/

section Steps

variable {Value Result : Type} {step : Steps Value} {next : Value → Steps Result}
  {place after : Place} {value : Value} {error : ParseError}

theorem bind_ok (ran : step place = some (.ok value, after)) :
    (step >>= next) place = next value after := by
  simp [bind, ExceptT.bind, ExceptT.mk, StateT.bind, ran, ExceptT.bindCont]

theorem bind_error (ran : step place = some (.error error, after)) :
    (step >>= next) place = some (.error error, after) := by
  simp only [bind, ExceptT.bind, ExceptT.mk, StateT.bind, ran]
  rfl

end Steps

variable {lexemes input rest after : List Lexeme} {limit depth : Nat} {lexeme : Lexeme}

/-- The place in front of what is left of the lexemes. -/
def before (lexemes rest : List Lexeme) (depth : Nat) : Place :=
  { cursor := lexemes.length - rest.length, depth }

theorem getElem_before (suffix : rest <:+ lexemes) (depth : Nat) :
    lexemes[(before lexemes rest depth).cursor]? = rest.head? := by
  obtain ⟨taken, rfl⟩ := suffix
  rw [List.head?_eq_getElem?, before, List.length_append, Nat.add_sub_cancel,
    List.getElem?_append_right (Nat.le_refl _), Nat.sub_self]

theorem peek_before (suffix : rest <:+ lexemes) (depth : Nat) :
    peek lexemes (before lexemes rest depth) =
      some (.ok rest.head?, before lexemes rest depth) := by
  rw [← getElem_before suffix depth]
  rfl

theorem peek_token_before (suffix : rest <:+ lexemes) (depth : Nat) :
    peekToken lexemes (before lexemes rest depth) =
      some (.ok (rest.head?.elim .finish Lexeme.token), before lexemes rest depth) := by
  rw [← getElem_before suffix depth]
  rfl

theorem advance_before (suffix : lexeme :: after <:+ lexemes) (depth : Nat) :
    advance lexemes (before lexemes (lexeme :: after) depth) =
      some (.ok (), before lexemes after depth) := by
  have moved : before lexemes after depth =
      { before lexemes (lexeme :: after) depth with
        cursor := (before lexemes (lexeme :: after) depth).cursor + 1 } := by
    have fits := suffix.length_le
    simp only [before, List.length_cons, Place.mk.injEq, and_true] at fits ⊢
    omega
  rw [advance, bind_ok (peek_before suffix depth), List.head?_cons, if_pos Option.isSome_some,
    moved]
  rfl

theorem enter_before (rest : List Lexeme) (depth : Nat) :
    enter limit (before lexemes rest depth) =
      some (if limit < depth + 1 then .error (.tooComplex limit) else .ok (),
        before lexemes rest (depth + 1)) := by
  have counted : enter limit (before lexemes rest depth) =
      (if limit < depth + 1 then throw (.tooComplex limit) else pure () : Steps Unit)
        (before lexemes rest (depth + 1)) := rfl
  rw [counted]
  split <;> rfl

theorem leave_before (rest : List Lexeme) (depth : Nat) :
    leave (before lexemes rest (depth + 1)) = some (.ok (), before lexemes rest depth) := rfl

theorem unexpected_before (suffix : rest <:+ lexemes) (depth : Nat) :
    unexpected lexemes (before lexemes rest depth) =
      some (.error ((misplaced rest).report limit (endPosition lexemes)),
        before lexemes rest depth) := by
  rw [unexpected, bind_ok (peek_before suffix depth)]
  cases rest with
  | nil => rfl
  | cons lexeme after =>
      cases token : lexeme.token <;> simp only [List.head?_cons, misplaced, token] <;> rfl

/-- What a parser comes to that had entered `depth` levels when the reply was given. -/
def counted (lexemes : List Lexeme) (limit depth : Nat) :
    Reply input → Except ParseError Expression × Place
  | .done tree rest _ => (.ok tree, before lexemes rest depth)
  | .failed fault rest entered =>
      (.error (fault.report limit (endPosition lexemes)), before lexemes rest (depth + entered))

/-- From a place with so many levels the step does what the reader does. -/
def Follows (lexemes : List Lexeme) (limit depth : Nat) (step : Steps Expression)
    (read : Reader) : Prop :=
  ∀ input, Passed lexemes input →
    step (before lexemes input depth) = some (counted lexemes limit depth (read input))

section Agreement

open Grammar (Forward)

variable {inner start : List Lexeme} {budget bound : Nat} {operator? : Token → Option BinaryOperator}
  {read inside exponent : Reader} {step operand insideSteps exponentSteps : Steps Expression}
  {place : Place}

theorem counted_and_then {reply : Reply inner} {more : Expression → Steps Expression}
    {next : Expression → (rest : List Lexeme) → rest.length < inner.length → Reply input}
    (ran : step place = some (counted lexemes limit depth reply))
    (advances : reply.Advances budget start) (passed : Passed lexemes start)
    (continued : ∀ tree rest shorter, Passed lexemes rest →
      more tree (before lexemes rest depth) =
        some (counted lexemes limit depth (next tree rest shorter))) :
    (step >>= more) place = some (counted lexemes limit depth (reply.andThen next)) := by
  cases reply with
  | done tree rest shorter =>
      rw [bind_ok ran]
      exact continued tree rest shorter (passed_trans passed advances)
  | failed fault rest entered => exact bind_error ran

theorem counted_within {reply : Reply inner} {wrap : Expression → Expression}
    {part : inner.length ≤ input.length}
    (ran : step place = some (counted lexemes limit depth reply))
    (advances : reply.Advances budget start) (passed : Passed lexemes start) :
    (step >>= fun tree => pure (wrap tree)) place =
      some (counted lexemes limit depth (reply.within wrap part : Reply input)) :=
  counted_and_then ran advances passed fun _ _ _ _ => rfl

theorem and_then_assoc {outer : List Lexeme} (reply : Reply inner)
    (next : Expression → (rest : List Lexeme) → rest.length < inner.length → Reply input)
    (last : Expression → (rest : List Lexeme) → rest.length < input.length → Reply outer) :
    (reply.andThen next).andThen last =
      reply.andThen fun tree rest shorter => (next tree rest shorter).andThen last := by
  cases reply <;> rfl

theorem leave_follows {reply : Reply input}
    (ran : step place = some (counted lexemes limit (depth + 1) reply)) :
    (step >>= fun tree => leave >>= fun _ => pure tree) place =
      some (counted lexemes limit depth reply.enter) := by
  cases reply with
  | done tree rest shorter =>
      rw [bind_ok ran]
      exact bind_ok (leave_before rest depth)
  | failed fault rest entered =>
      rw [bind_error ran, Nat.add_assoc, Nat.add_comm 1]
      rfl

theorem counted_within_id {reply : Reply inner} {part : inner.length ≤ input.length} :
    counted lexemes limit depth (reply.within id part : Reply input) =
      counted lexemes limit depth reply := by
  cases reply <;> rfl

theorem joined_follows (finishless : operator? .finish = none)
    (follows : Follows lexemes limit depth operand read) (forward : Forward budget read)
    (left : Expression) (rest : List Lexeme) (shorter : rest.length < input.length)
    (passed : Passed lexemes rest) (reaches : rest.length ≤ bound) :
    joined lexemes operator? operand (bound + 1) left (before lexemes rest depth) =
      some (counted lexemes limit depth (Grammar.extend operator? read left rest shorter)) := by
  fun_induction Grammar.extend operator? read left rest shorter generalizing bound with
  | case1 left shorter =>
      rw [joined, bind_ok (peek_token_before (passed_suffix passed) depth)]
      simp only [List.head?_nil, Option.elim_none, finishless]
      rfl
  | case2 left lexeme after shorter other =>
      rw [joined, bind_ok (peek_token_before (passed_suffix passed) depth)]
      simp only [List.head?_cons, Option.elim_some, other]
      rfl
  | case3 left lexeme after shorter operator found _ ih =>
      have proper : lexeme.token ≠ .finish := fun closing => by
        simp [closing, finishless] at found
      have further := passed_trans passed (passed_cons proper)
      rw [joined, bind_ok (peek_token_before (passed_suffix passed) depth)]
      simp only [List.head?_cons, Option.elim_some, found]
      rw [bind_ok (advance_before (passed_suffix passed) depth)]
      cases bound with
      | zero => simp at reaches
      | succ bound =>
          refine counted_and_then (follows after further) (forward after) further
            fun right next progress reached => ih right next progress reached ?_
          simp only [List.length_cons] at reaches
          omega

theorem chain_follows (finishless : operator? .finish = none)
    (follows : Follows lexemes limit depth operand read) (forward : Forward budget read) :
    Follows lexemes limit depth (chain lexemes operator? operand)
      (Grammar.chain operator? read) := by
  intro input passed
  rw [chain]
  exact counted_and_then (follows input passed) (forward input) passed
    fun left rest shorter reached => joined_follows finishless follows forward left rest shorter
      reached (passed_suffix reached).length_le

theorem sum_follows (follows : Follows lexemes limit depth operand read)
    (forward : Forward budget read) :
    Follows lexemes limit depth (sum lexemes operand) (Grammar.sum read) :=
  chain_follows rfl (chain_follows rfl follows forward) (Grammar.chain_forward rfl forward)

theorem close_follows {opening : Nat} (tree : Expression) (rest : List Lexeme)
    (shorter : rest.length < input.length) (passed : Passed lexemes rest) :
    (expectClosing lexemes opening >>= fun _ => pure tree) (before lexemes rest depth) =
      some (counted lexemes limit depth (Grammar.close opening tree rest shorter)) := by
  have suffix := passed_suffix passed
  cases rest with
  | nil =>
      apply bind_error
      rw [expectClosing, bind_ok (peek_before suffix depth)]
      rfl
  | cons lexeme after =>
      simp only [Grammar.close]
      split
      · rename_i closing
        have closed : expectClosing lexemes opening (before lexemes (lexeme :: after) depth) =
            some (.ok (), before lexemes after depth) := by
          rw [expectClosing, bind_ok (peek_before suffix depth)]
          simp only [List.head?_cons, closing]
          exact advance_before suffix depth
        exact bind_ok closed
      · rename_i closing
        apply bind_error
        rw [expectClosing, bind_ok (peek_before suffix depth)]
        simp only [List.head?_cons, closing]
        rfl
      · rename_i other proper
        apply bind_error
        rw [expectClosing, bind_ok (peek_before suffix depth)]
        simp only [List.head?_cons]
        rfl

theorem group_follows (follows : Follows lexemes limit depth insideSteps inside)
    (forward : Forward budget inside) :
    Follows lexemes limit depth (group lexemes insideSteps) (Grammar.group inside) := by
  intro input passed
  have suffix := passed_suffix passed
  rw [group, bind_ok (peek_before suffix depth)]
  cases input with
  | nil => exact unexpected_before suffix depth
  | cons lexeme after =>
      by_cases opening : lexeme.token = .opening
      · have further := passed_trans passed (passed_cons (by simp [opening]))
        simp only [List.head?_cons, Grammar.group, opening]
        rw [bind_ok (advance_before suffix depth), counted_within_id]
        exact counted_and_then (follows after further) (forward after) further
          fun tree rest shorter reached => close_follows tree rest shorter reached
      · simp only [List.head?_cons, Grammar.group]
        exact unexpected_before suffix depth

theorem primary_follows (follows : Follows lexemes limit depth insideSteps inside)
    (forward : Forward budget inside) :
    Follows lexemes limit depth (primary lexemes insideSteps) (Grammar.primary inside) := by
  intro input passed
  have suffix := passed_suffix passed
  rw [primary, bind_ok (peek_token_before suffix depth)]
  cases input with
  | nil => exact unexpected_before suffix depth
  | cons lexeme after =>
      simp only [List.head?_cons, Option.elim_some, Grammar.primary]
      split
      · rename_i value literal
        simp only [literal]
        rw [bind_ok (advance_before suffix depth)]
        rfl
      · rename_i name named
        have further := passed_trans passed (passed_cons (by simp [named]))
        simp only [named]
        split
        · rename_i function _ known
          simp only [known]
          rw [bind_ok (advance_before suffix depth)]
          exact counted_within (group_follows follows forward after further)
            (Grammar.group_forward forward after) further
        · rename_i constant unknown known
          simp only [unknown, known]
          rw [bind_ok (advance_before suffix depth)]
          rfl
        · rename_i noFunction noConstant
          simp only [noFunction, noConstant]
          exact unexpected_before suffix depth
      · rename_i notNumber notName
        by_cases opening : lexeme.token = .opening
        · simp only [opening]
          exact group_follows follows forward _ passed
        · simp only [Grammar.group]
          exact unexpected_before suffix depth

theorem marked_follows (tree : Expression) (rest : List Lexeme)
    (shorter : rest.length < input.length) (passed : Passed lexemes rest)
    (reaches : rest.length ≤ bound) :
    marked lexemes (bound + 1) tree (before lexemes rest depth) =
      some (counted lexemes limit depth (Grammar.factorials tree rest shorter)) := by
  fun_induction Grammar.factorials tree rest shorter generalizing bound with
  | case1 tree shorter =>
      rw [marked, bind_ok (peek_token_before (passed_suffix passed) depth)]
      rfl
  | case2 tree lexeme after shorter mark ih =>
      rw [marked, bind_ok (peek_token_before (passed_suffix passed) depth)]
      simp only [List.head?_cons, Option.elim_some, mark]
      rw [bind_ok (advance_before (passed_suffix passed) depth)]
      cases bound with
      | zero => simp at reaches
      | succ bound =>
          exact ih (passed_trans passed (passed_cons (by simp [mark])))
            (Nat.le_of_succ_le_succ reaches)
  | case3 tree lexeme after shorter other =>
      rw [marked, bind_ok (peek_token_before (passed_suffix passed) depth)]
      simp only [List.head?_cons, Option.elim_some]
      rfl

theorem raise_follows (follows : Follows lexemes limit depth exponentSteps exponent)
    (forward : Forward budget exponent) (base : Expression) (rest : List Lexeme)
    (shorter : rest.length < input.length) (passed : Passed lexemes rest) :
    raised lexemes exponentSteps base (before lexemes rest depth) =
      some (counted lexemes limit depth (Grammar.raise exponent base rest shorter)) := by
  have suffix := passed_suffix passed
  rw [raised, bind_ok (peek_token_before suffix depth)]
  cases rest with
  | nil => rfl
  | cons lexeme after =>
      by_cases sign : lexeme.token = .power
      · have further := passed_trans passed (passed_cons (by simp [sign]))
        simp only [List.head?_cons, Option.elim_some, Grammar.raise, sign]
        rw [bind_ok (advance_before suffix depth)]
        exact counted_within (follows after further) (forward after) further
      · simp only [List.head?_cons, Option.elim_some, Grammar.raise]
        rfl

theorem power_follows (insideFollows : Follows lexemes limit depth insideSteps inside)
    (insideForward : Forward budget inside)
    (exponentFollows : Follows lexemes limit depth exponentSteps exponent)
    (exponentForward : Forward budget exponent) :
    Follows lexemes limit depth (power lexemes insideSteps exponentSteps)
      (Grammar.power inside exponent) := by
  intro input passed
  rw [power, Grammar.power, and_then_assoc]
  apply counted_and_then (primary_follows insideFollows insideForward input passed)
    (Grammar.primary_forward insideForward input) passed
  intro tree rest shorter reached
  have advances : (Grammar.factorials tree rest shorter : Reply input).Advances 0 rest :=
    Grammar.factorials_advances tree rest shorter (passed_refl rest)
  have fits := (passed_suffix reached).length_le
  exact counted_and_then (marked_follows tree rest shorter reached fits) advances reached
    fun base rest shorter => raise_follows exponentFollows exponentForward base rest shorter

/-- The budget of the readers is what the counter leaves of the limit. -/
theorem level_follows {budget : Nat} (follows : Follows lexemes limit (depth + 1) operand
      (Grammar.signed budget)) (input : List Lexeme) (passed : Passed lexemes input) :
    (level lexemes operand >>= fun tree => leave >>= fun _ => pure tree)
        (before lexemes input (depth + 1)) =
      some (counted lexemes limit depth (Grammar.signed (budget + 1) input)) := by
  have forward := Grammar.signed_forward budget
  have powers := power_follows (sum_follows follows forward) (Grammar.sum_forward forward)
    follows forward
  have suffix := passed_suffix passed
  cases input with
  | nil =>
      rw [Grammar.signed]
      apply leave_follows
      rw [level, bind_ok (peek_token_before suffix (depth + 1))]
      exact powers [] passed
  | cons lexeme after =>
      by_cases sign : lexeme.token = .minus
      · have further := passed_trans passed (passed_cons (by simp [sign]))
        simp only [Grammar.signed, sign]
        apply leave_follows
        rw [level, bind_ok (peek_token_before suffix (depth + 1))]
        simp only [List.head?_cons, Option.elim_some, sign]
        rw [bind_ok (advance_before suffix (depth + 1))]
        exact counted_within (follows after further) (forward after) further
      · simp only [Grammar.signed]
        apply leave_follows
        rw [level, bind_ok (peek_token_before suffix (depth + 1))]
        simp only [List.head?_cons, Option.elim_some]
        exact powers _ passed

theorem signed_follows (reaches : limit - depth < bound) :
    Follows lexemes limit depth (signed lexemes limit bound) (Grammar.signed (limit - depth)) := by
  induction bound generalizing depth with
  | zero => exact absurd reaches (Nat.not_lt_zero _)
  | succ bound ih =>
      intro input passed
      rw [signed]
      by_cases deep : limit < depth + 1
      · rw [Nat.sub_eq_zero_of_le (Nat.le_of_lt_succ deep)]
        apply bind_error
        rw [enter_before, if_pos deep]
        rfl
      · have inner := ih (by omega : limit - (depth + 1) < bound)
        have same : limit - depth = limit - (depth + 1) + 1 := by omega
        rw [bind_ok (by rw [enter_before, if_neg deep]), same]
        exact level_follows inner input passed

theorem expression_follows (lexemes : List Lexeme) (limit depth : Nat) :
    Follows lexemes limit depth (expression lexemes limit)
      (Grammar.expression (limit - depth)) :=
  sum_follows (signed_follows (Nat.lt_succ_of_le (Nat.sub_le _ _))) (Grammar.signed_forward _)

end Agreement

end Counter

end Calculator
